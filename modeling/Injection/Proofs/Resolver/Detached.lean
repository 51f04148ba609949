import Injection.Proofs.Resolver.Derivation

/-!
# Closures that leave registries alone

A program is detached if it asks no registry for anything; it may make values, functions and registries, use what
closures remember and call closures directly.  Where all closures are detached, a run of one does not see what
registries hold and does not change it, and the closures that are called are all that its trace tells of
(`Resolver.runCallee_detached`).  So all that happens to registries in a lookup is memoization
(`Resolver.Resolves.onlyMemoizes`).
-/

namespace Injection

open Run

variable {γ σ α β : Type}

/-! ### Detached runs -/

/-- The mark tells of a closure's run. -/
def Mark.IsOfClosure : Mark γ → Prop
  | .called _ _ | .returned _ _ => True
  | _ => False

theorem Mark.IsOfClosure.isWork {m : Mark γ} (h : m.IsOfClosure) : m.isWork = true := by
  cases m with
  | called | returned => rfl
  | _ => cases h

/-- Another view of the store's registries makes no difference to the run, and it leaves them as they are. -/
structure Run.Detached (m : Run γ σ α) : Prop where
  apply : ∀ s registries, m { s with registries } = (m s).map fun x => (x.1, { x.2.1 with registries }, x.2.2)
  marks : ∀ ⦃s a s' ms⦄, m s = some (a, s', ms) → ∀ k ∈ ms, k.IsOfClosure

namespace Run.Detached

variable {m : Run γ σ α} {s s' t : Store γ σ} {a : α} {ms : Trace γ}

theorem registries (h : m.Detached) (hm : m s = some (a, s', ms)) : s'.registries = s.registries := by
  have hs := h.apply s s.registries
  rw [show ({ s with registries := s.registries } : Store γ σ) = s from rfl, hm] at hs
  exact congrArg (fun x => x.2.1.registries) (Option.some.inj hs)

/-- The run is the same wherever closures remember the same and the same identities are free. -/
theorem transfer (h : m.Detached) (hfresh : t.fresh = s.fresh) (hmemory : t.memory = s.memory)
    (hm : m s = some (a, s', ms)) : m t = some (a, { s' with registries := t.registries }, ms) := by
  have ht : t = { s with registries := t.registries } := by
    rw [← hfresh, ← hmemory]
  rw [ht, h.apply s t.registries, hm]
  rfl

theorem outOfBound : (Run.outOfBound : Run γ σ α).Detached :=
  ⟨fun _ _ => rfl, fun _ _ _ _ h => absurd h outOfBound_ne_some⟩

theorem pure (a : α) : (pure a : Run γ σ α).Detached := by
  refine ⟨fun _ _ => rfl, ?_⟩
  intro s b s' ms h
  cases h
  exact fun _ hk => absurd hk List.not_mem_nil

theorem mark {k : Mark γ} (hk : k.IsOfClosure) : (mark k : Run γ σ Unit).Detached := by
  refine ⟨fun _ _ => rfl, ?_⟩
  intro s b s' ms h
  cases h
  exact fun j hj => List.mem_singleton.1 hj ▸ hk

theorem bind {f : α → Run γ σ β} (hm : m.Detached) (hf : ∀ a, (f a).Detached) : (m >>= f).Detached := by
  constructor
  case apply =>
    intro s registries
    rw [bind_apply, bind_apply, hm.apply]
    cases m s with
    | none => rfl
    | some x =>
      have hx := (hf x.1).apply x.2.1 registries
      rw [Option.map_some, Option.bind_some, Option.bind_some, hx]
      cases f x.1 x.2.1 <;> rfl
  case marks =>
    intro s b s' ms h k hk
    obtain ⟨a, s₁, ms₁, b, s₂, ms₂, h₁, h₂, heq⟩ := bind_eq_some.1 h
    cases heq
    rcases List.mem_append.1 hk with hk | hk
    · exact hm.marks h₁ k hk
    · exact (hf a).marks h₂ k hk

theorem between {first : Mark γ} {last : α → Mark γ} (hfirst : first.IsOfClosure)
    (hlast : ∀ a, (last a).IsOfClosure) (h : m.Detached) : (between first m last).Detached :=
  (mark hfirst).bind fun _ => h.bind fun a => (mark (hlast a)).bind fun _ => pure a

theorem read {f : Store γ σ → α} (hf : ∀ s registries, f { s with registries } = f s) : (read f).Detached := by
  constructor
  case apply =>
    intro s registries
    rw [Run.read, Run.read, hf]
    rfl
  case marks =>
    intro s b s' ms h
    cases h
    exact fun _ hk => absurd hk List.not_mem_nil

theorem change {f : Store γ σ → Store γ σ} (hf : ∀ s registries, f { s with registries } = { f s with registries }) :
    (change f).Detached := by
  constructor
  case apply =>
    intro s registries
    rw [Run.change, Run.change, hf]
    rfl
  case marks =>
    intro s b s' ms h
    cases h
    exact fun _ hk => absurd hk List.not_mem_nil

/-- What is made under a new identity. -/
theorem made (f : Nat → α) :
    (Run.read Store.fresh >>= fun id => Run.change Store.skip >>= fun _ => Pure.pure (f id) : Run γ σ α).Detached :=
  (read fun _ _ => rfl).bind fun id => (change fun _ _ => rfl).bind fun _ => pure (f id)

end Run.Detached

/-! ### Detached programs -/

/-- No registry takes part in the request. -/
def Request.IsDetached : Request γ σ → Prop
  | .newRegistry _ | .newFunction _ _ | .newValue _ | .readMemory | .writeMemory _ | .call _ _ | .construct _ _ => True
  | _ => False

/-- All requests of the program are detached, whatever answers it gets. -/
def Program.IsDetached : Program γ σ α → Prop
  | .done _ => True
  | .ask q next => q.IsDetached ∧ ∀ x, (next x).IsDetached

/-- No closure asks a registry for anything. -/
structure Closures.Detached (closures : Closures γ σ) : Prop where
  call : ∀ body a, (closures.call body a).IsDetached
  construct : ∀ body a, (closures.construct body a).IsDetached

theorem Program.IsDetached.run {perform : (q : Request γ σ) → Run γ σ q.Answer}
    (h : ∀ q : Request γ σ, q.IsDetached → (perform q).Detached) {p : Program γ σ α} (hp : p.IsDetached) :
    (p.run perform).Detached := by
  induction p with
  | done a => exact .pure a
  | ask q next ih => exact (h q hp.1).bind fun x => ih x (hp.2 x)

namespace Resolver

variable {closures : Closures γ σ} {low : Resolver γ σ}

theorem newValue_detached (data : Data γ (Value γ)) : (newValue data : Run γ σ (Value γ)).Detached :=
  .made fun id => Value.mk id data

theorem runFunction_detached (hclosures : closures.Detached)
    (hlow : ∀ q : Request γ σ, q.IsDetached → (low.perform q).Detached) (f : Function γ) (a : Arguments γ) :
    (runFunction closures low f a).Detached :=
  .between trivial (fun _ => trivial) ((hclosures.call f.body a).run hlow)

theorem runConstructor_detached (hclosures : closures.Detached)
    (hlow : ∀ q : Request γ σ, q.IsDetached → (low.perform q).Detached) (c : Class γ) (a : Arguments γ) :
    (runConstructor closures low c a).Detached := by
  refine .between trivial (fun _ => trivial) (((hclosures.construct c.body a).run hlow).bind fun x => ?_)
  cases x with
  | error e => exact .pure _
  | ok data => exact (newValue_detached data).bind fun v => .pure _

/-- Where closures are detached, so are the runs of detached requests. -/
theorem level_detached (hclosures : closures.Detached) (n : Nat) {q : Request γ σ} (hq : q.IsDetached) :
    ((level closures n).perform q).Detached := by
  induction n generalizing q with
  | zero => exact .outOfBound
  | succ n ih =>
    cases q with
    | newRegistry name => exact .made fun id => Registry.mk id name
    | newFunction source body => exact .made fun id => Function.new id source body
    | newValue data => exact newValue_detached data
    | readMemory => exact .read fun _ _ => rfl
    | writeMemory memory => exact .change fun _ _ => rfl
    | call f a => exact runFunction_detached hclosures (fun _ => ih) f a
    | construct c a => exact runConstructor_detached hclosures (fun _ => ih) c a
    | _ => cases hq

theorem runCallee_detached (hclosures : closures.Detached) (n : Nat) (c : Callee γ) (a : Arguments γ) :
    (runCallee closures (level closures n) c a).Detached := by
  cases c with
  | function f => exact runFunction_detached hclosures (fun _ => level_detached hclosures n) f a
  | constructible c => exact runConstructor_detached hclosures (fun _ => level_detached hclosures n) c a

end Resolver

/-! ### Lookups -/

namespace Trace

@[simp] theorem onlyMemoizes_nil : OnlyMemoizes ([] : Trace γ) :=
  fun _ hc => absurd hc List.not_mem_nil

@[simp] theorem onlyMemoizes_cons {m : Mark γ} {ms : Trace γ} :
    OnlyMemoizes (m :: ms) ↔ (∀ c, m = .changed c → ∃ r key v, c = .memoized r key v) ∧ ms.OnlyMemoizes := by
  simp only [OnlyMemoizes, List.mem_cons]
  exact ⟨fun h => ⟨fun c hc => h c (.inl hc.symm), fun c hc => h c (.inr hc)⟩,
    fun h c hc => hc.elim (fun hc => h.1 c hc.symm) (h.2 c)⟩

theorem notMem_of_work {ms : Trace γ} (h : ms.work = []) {m : Mark γ} (hm : m.isWork = true) : m ∉ ms := by
  rw [work, List.filter_eq_nil_iff] at h
  exact fun hmem => h m hmem hm

end Trace

namespace Resolver

variable {closures : Closures γ σ}

/-- Where closures are detached, all that happens to registries in a lookup is memoization. -/
theorem Resolves.onlyMemoizes (hclosures : closures.Detached) {g : Goal γ} {s s' : Store γ σ} {a : g.Answer}
    {ms : Trace γ} (h : Resolves closures g s a s' ms) : ms.OnlyMemoizes := by
  induction h with
  | @key r key s s' x ms _ ih =>
    have hx : (missed s' r key x).OnlyMemoizes := by cases x <;> simp [missed]
    simp [ih, hx]
  | other => exact Trace.onlyMemoizes_nil
  | unresolved _ ih => simp [ih]
  | @run r receiver c s s₁ s' vs x ms ms' _ hx ih =>
    obtain ⟨n, hx⟩ := hx
    have hms' : ms'.OnlyMemoizes := fun k hk => ((runCallee_detached hclosures n c _).marks hx _ hk).elim
    simp [ih, hms']
  | bound _ _ ih => simp [ih]
  | inherited _ _ ih => simp [ih]
  | exhausted => exact Trace.onlyMemoizes_nil
  | found _ ih => simp [ih]
  | failed _ _ ih ihrest => simp [ih, ihrest]
  | absent _ _ ih ihrest => simp [ih, ihrest]
  | value => simp
  | transient _ ih => exact ih
  | @unprovided r key f cached s s' e ms _ ih => cases cached <;> simp [locking, ih]
  | provided _ ih => simp [ih]
  | kept _ hm ih =>
    rcases memoize_eq_some hm with ⟨g, cached, -, -, -, rfl⟩ | ⟨-, rfl⟩
    · simp [ih]
    · simp [ih]
  | nil => exact Trace.onlyMemoizes_nil
  | cons _ _ ih ihrest => simp [ih, ihrest]
  | stopped _ ih => exact ih

end Resolver

end Injection
