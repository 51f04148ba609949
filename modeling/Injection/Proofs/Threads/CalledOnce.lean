import Injection.Proofs.Resolver.Visiting
import Injection.Proofs.Threads.Lookup
import Mathlib.Data.List.FinRange

/-!
# A provider is called successfully once

Threads that look up a key at the same time, where it is bound to a cached provider, take turns to call it until a call
succeeds.  The lock keeps the others from calling it in the meantime, and the binding, which is read again under the
lock, tells them afterwards to take the value that was memoized.

The invariant has two parts.  `Phase` tells how far the calls have come: all of them have failed, one has succeeded and
its thread is about to memoize the value, or it is memoized.  `Allowed` tells what each thread may know where it is:
whoever calls or memoizes holds the lock, and whoever has a value has the one that is bound.  Every step keeps both
(`Consistent.step`), so they hold after every history, and `Threads.called_once` can be read off them.  When all threads
are done, the calls of the history, in its order, are those of the same lookups made one after the other.
-/

namespace Injection

open Resolver

variable {γ σ : Type} {n : Nat}

namespace Threads

/-- The key is bound to a cached provider, whose parameters are constants and whose closure leaves registries alone. -/
structure Provided (closures : Closures γ σ) (s : Store γ σ) (r : Registry) (key : String) (f : Function γ) : Prop where
  bound : s.binding? r key = some (.provider f true)
  parameters : ∀ k ∈ f.signature.keys, ∃ v, s.binding? r k = some (.constant v)
  detached : ∀ n a, (runFunction closures (level closures n) f a).Detached

section Calls

variable {closures : Closures γ σ} {s s' s₁ : Store γ σ} {r : Registry} {key : String} {f : Function γ} {ms : Trace γ}

/-! ### Calls of the provider -/

/-- To resolve constants changes nothing. -/
theorem eq_of_resolves_constants {keys : List String} (hkeys : ∀ k ∈ keys, ∃ v, s.binding? r k = some (.constant v))
    {x : Except ResolveError (List (Value γ))} (h : Resolves closures (.all r keys) s x s' ms) : s' = s := by
  have first {k : String} {a : Resolved γ} {t : Store γ σ} {ms : Trace γ}
      (hk : ∃ v, s.binding? r k = some (.constant v)) (h : Resolves closures (.meet r (.key k)) s a t ms) : t = s := by
    obtain ⟨v, hv⟩ := hk
    cases h with
    | key search =>
      cases search with
      | bound hb attempt =>
        cases hv.symm.trans hb
        cases attempt
        rfl
      | inherited hb parents => cases hv.symm.trans hb
  induction keys generalizing x ms with
  | nil =>
    cases h
    rfl
  | cons k keys ih =>
    have hk := hkeys k List.mem_cons_self
    cases h with
    | cons hfirst rest =>
      obtain rfl := first hk hfirst
      exact ih (fun k hk => hkeys k (List.mem_cons_of_mem _ hk)) rest
    | stopped hfirst => exact first hk hfirst

/-- A call of the provider leaves registries as they are. -/
theorem Provided.registries_of_call (hf : Provided closures s r key f) {a : Resolved γ}
    (h : Ends closures (call closures · r none f) s a s' ms) : s'.registries = s.registries := by
  have hmeet : Resolves closures (.meet r (.run none (.function f))) s a s' ms := resolves_iff.2 h
  cases hmeet with
  | unresolved all => rw [eq_of_resolves_constants hf.parameters all]
  | run all run =>
    obtain rfl := eq_of_resolves_constants hf.parameters all
    obtain ⟨n, run⟩ := run
    exact (hf.detached n _).registries run

/-- It does not matter for that which store of these registries it is. -/
theorem Provided.of_registries (hf : Provided closures s r key f) (h : s'.registries = s.registries) :
    Provided closures s' r key f where
  bound := by rw [Store.binding?_of_registries h, hf.bound]
  parameters k hk := by
    rw [Store.binding?_of_registries h]
    exact hf.parameters k hk
  detached := hf.detached

/-- One call of the provider after the other fails. -/
inductive Fails (closures : Closures γ σ) (r : Registry) (f : Function γ) (s : Store γ σ) :
    List ResolveError → Store γ σ → Prop
  | none : Fails closures r f s [] s
  | one {es : List ResolveError} {e : ResolveError} {s₁ s₂ : Store γ σ} {ms : Trace γ}
    (fails : Fails closures r f s es s₁)
    (call : Ends closures (call closures · r none f) s₁ (.error e) s₂ ms) : Fails closures r f s (es ++ [e]) s₂

theorem Provided.fails (hf : Provided closures s r key f) {es : List ResolveError} (h : Fails closures r f s es s') :
    Provided closures s' r key f := by
  induction h with
  | none => exact hf
  | one _ call ih => exact ih.of_registries (ih.registries_of_call call)

end Calls

/-! ### The invariant -/

/-- The failing calls of threads. -/
def failures (es : List (Fin n × ResolveError)) : List (Fin n × Resolved γ) :=
  es.map fun x => (x.1, .error x.2)

/-- How far the calls have come since the store `s`, which are these, their values having been memoized so. -/
inductive Phase (closures : Closures γ σ) (s : Store γ σ) (r : Registry) (key : String) (f : Function γ) :
    List (Fin n × Resolved γ) → List (Fin n × Value γ) → State γ σ n → Prop
  | failing {es : List (Fin n × ResolveError)} {T : State γ σ n}
    (fails : Fails closures r f s (es.map Prod.snd) T.store) :
    Phase closures s r key f (failures es) [] T
  | called {es : List (Fin n × ResolveError)} {i : Fin n} {v : Value γ} {s₁ : Store γ σ} {T : State γ σ n}
    {ms : Trace γ} (fails : Fails closures r f s (es.map Prod.snd) s₁)
    (call : Ends closures (call closures · r none f) s₁ (.ok v) T.store ms) (memoizing : T.points i = .memoizing f v) :
    Phase closures s r key f (failures es ++ [(i, .ok v)]) [] T
  | memoized {es : List (Fin n × ResolveError)} {i : Fin n} {v : Value γ} {s₁ s₂ : Store γ σ} {T : State γ σ n}
    {ms : Trace γ} (fails : Fails closures r f s (es.map Prod.snd) s₁)
    (call : Ends closures (call closures · r none f) s₁ (.ok v) s₂ ms)
    (store : T.store = s₂.bind r key (.constant v)) :
    Phase closures s r key f (failures es ++ [(i, .ok v)]) [(i, v)] T

/-- A thread that has this answer has made the calls; a value is the one that is bound. -/
def Answered (b : Option (Binding γ)) (calls : List (Resolved γ)) : Resolved γ → Prop
  | .ok v => b = some (.constant v) ∧ ∀ e, .error e ∉ calls
  | .error e => calls = [.error e]

/-- What is known of a thread that is at the point, where the key is bound so: whether it holds the lock and what calls
it has made. -/
def Allowed (f : Function γ) (owned : Prop) (b : Option (Binding γ)) (calls : List (Resolved γ)) : Point γ → Prop
  | .reading => calls = []
  | .locking g => g = f ∧ calls = []
  | .rereading g => g = f ∧ owned ∧ calls = []
  | .calling g keep => g = f ∧ keep = true ∧ owned ∧ b = some (.provider f true) ∧ calls = []
  | .memoizing g v => g = f ∧ owned ∧ b = some (.provider f true) ∧ calls = [.ok v]
  | .resolving c locked => (∃ v, c = .constant v ∧ b = some (.constant v)) ∧ (locked = true → owned) ∧ calls = []
  | .inheriting => False
  | .releasing a => owned ∧ Answered b calls a
  | .done a => Answered b calls a

/-- What holds after every history of the threads. -/
structure Consistent (closures : Closures γ σ) (s : Store γ σ) (r : Registry) (key : String) (f : Function γ)
    (h : History γ n) (T : State γ σ n) : Prop where
  phase : Phase closures s r key f h.calls h.memoized T
  allowed : ∀ i, Allowed f (T.owner = some i) (T.store.binding? r key) (h.callsOf i) (T.points i)

section Steps

variable {closures : Closures γ σ} {s : Store γ σ} {r : Registry} {key : String} {f : Function γ}

/-- Others cannot take from a thread what it knows, as long as they leave it the lock and the value that is bound. -/
theorem Allowed.mono {owned owned' : Prop} {b b' : Option (Binding γ)} {calls : List (Resolved γ)} {p : Point γ}
    (h : Allowed f owned b calls p) (howned : owned → owned')
    (hvalue : ∀ v, b = some (.constant v) → b' = some (.constant v))
    (hprovider : owned → b = some (.provider f true) → b' = some (.provider f true)) : Allowed f owned' b' calls p := by
  have answered {a : Resolved γ} (ha : Answered b calls a) : Answered b' calls a := by
    cases a with
    | ok v => exact ⟨hvalue v ha.1, ha.2⟩
    | error e => exact ha
  cases p with
  | reading => exact h
  | locking g => exact h
  | rereading g => exact ⟨h.1, howned h.2.1, h.2.2⟩
  | calling g keep =>
    obtain ⟨hg, hkeep, ho, hb, hcalls⟩ := h
    exact ⟨hg, hkeep, howned ho, hprovider ho hb, hcalls⟩
  | memoizing g v =>
    obtain ⟨hg, ho, hb, hcalls⟩ := h
    exact ⟨hg, howned ho, hprovider ho hb, hcalls⟩
  | resolving c locked =>
    obtain ⟨⟨v, hc, hb⟩, hlocked, hcalls⟩ := h
    exact ⟨⟨v, hc, hvalue v hb⟩, fun hl => howned (hlocked hl), hcalls⟩
  | inheriting => exact h
  | releasing a => exact ⟨howned h.1, answered h.2⟩
  | done a => exact answered h

/-- The key is bound to the provider, and from its memoization on to the value that was memoized. -/
theorem Phase.binding? (hf : Provided closures s r key f) {calls : List (Fin n × Resolved γ)}
    {memoized : List (Fin n × Value γ)} {T : State γ σ n} (h : Phase closures s r key f calls memoized T) :
    (memoized = [] ∧ T.store.binding? r key = some (.provider f true)) ∨
      ∃ i v, memoized = [(i, v)] ∧ T.store.binding? r key = some (.constant v) := by
  cases h with
  | failing fails => exact .inl ⟨rfl, (hf.fails fails).bound⟩
  | called fails call =>
    have hf₁ := hf.fails fails
    exact .inl ⟨rfl, (hf₁.of_registries (hf₁.registries_of_call call)).bound⟩
  | memoized fails call store =>
    refine .inr ⟨_, _, rfl, ?_⟩
    rw [store, Store.binding?_bind, if_pos ⟨rfl, rfl⟩]

/-- A phase goes on as long as the store is the same and the thread that is to memoize a value has not moved. -/
theorem Phase.stay {calls : List (Fin n × Resolved γ)} {memoized : List (Fin n × Value γ)} {T T' : State γ σ n}
    (h : Phase closures s r key f calls memoized T) (hstore : T'.store = T.store)
    (hpoints : ∀ i v, T.points i = .memoizing f v → T'.points i = .memoizing f v) :
    Phase closures s r key f calls memoized T' := by
  cases h with
  | failing fails => exact .failing (hstore ▸ fails)
  | called fails call memoizing => exact .called fails (hstore ▸ call) (hpoints _ _ memoizing)
  | memoized fails call store => exact .memoized fails call (hstore.trans store)

variable {h : History γ n} {T T' : State γ σ n} {i : Fin n}

/-- A step that changes neither the store nor the calls needs a look at its own thread only. -/
theorem Consistent.quiet (hc : Consistent closures s r key f h T) {a : Action γ} {owner : Option (Fin n)} {p : Point γ}
    (hcall : a.outcome? = none) (hmemoized : a.memoized? = none) (hfrom : ∀ v, T.points i ≠ .memoizing f v)
    (howner : ∀ j, j ≠ i → T.owner = some j → owner = some j)
    (hp : Allowed f (owner = some i) (T.store.binding? r key) (h.callsOf i) p) :
    Consistent closures s r key f (h ++ [(i, a)]) (T.move i p T.store owner) := by
  constructor
  case phase =>
    rw [History.calls_append_of_none hcall, History.memoized_append_of_none hmemoized]
    refine hc.phase.stay rfl fun j v hj => ?_
    have hne : j ≠ i := fun heq => hfrom v (heq ▸ hj)
    rw [State.points_move_of_ne _ _ _ _ _ hne, hj]
  case allowed =>
    intro j
    rw [History.callsOf_append_of_none hcall, State.owner_move, State.store_move]
    by_cases hj : j = i
    · rw [hj, State.points_move_self]
      exact hp
    · rw [State.points_move_of_ne _ _ _ _ _ hj]
      exact (hc.allowed j).mono (howner j hj) (fun _ hb => hb) (fun _ hb => hb)

/-- A constant is resolved to its value. -/
theorem ends_resolve_constant {s s' : Store γ σ} {v : Value γ} {a : Resolved γ} {ms : Trace γ}
    (h : Ends closures (resolveBinding closures · r key (.constant v)) s a s' ms) : s' = s ∧ a = .ok v := by
  obtain ⟨n, h⟩ := h
  cases h
  exact ⟨rfl, rfl⟩

/-- While a thread that holds the lock is calling the provider, all calls have failed. -/
theorem Consistent.fails_of_calling (hc : Consistent closures s r key f h T) (hp : T.points i = .calling f true) :
    ∃ es : List (Fin n × ResolveError), h.calls = failures es ∧ h.memoized = [] ∧
      Fails closures r f s (es.map Prod.snd) T.store := by
  have hi := hc.allowed i
  rw [hp] at hi
  obtain ⟨-, -, howned, hb, -⟩ := hi
  have hphase := hc.phase
  generalize hcalls : h.calls = calls at hphase
  generalize hmemoized : h.memoized = memoized at hphase
  cases hphase with
  | @failing es _ fails => exact ⟨es, rfl, rfl, fails⟩
  | @called _ j v _ _ _ _ _ memoizing =>
    -- the thread that is to memoize a value holds the lock, too
    have hj := hc.allowed j
    rw [memoizing] at hj
    cases howned.symm.trans hj.2.1
    cases hp.symm.trans memoizing
  | memoized fails call store =>
    rw [store, Store.binding?_bind, if_pos ⟨rfl, rfl⟩] at hb
    cases hb

theorem Consistent.call (hf : Provided closures s r key f) (hc : Consistent closures s r key f h T)
    (hp : T.points i = .calling f true) {a : Resolved γ} {s' : Store γ σ} {ms : Trace γ}
    (hcall : Ends closures (call closures · r none f) T.store a s' ms) :
    Consistent closures s r key f (h ++ [(i, .call a)]) (T.move i (afterCalling f true a) s' T.owner) := by
  obtain ⟨es, hes, hmemoized, hfails⟩ := hc.fails_of_calling hp
  have hi := hc.allowed i
  rw [hp] at hi
  obtain ⟨-, -, howned, hb, hcalls⟩ := hi
  have hb' : s'.binding? r key = T.store.binding? r key :=
    Store.binding?_of_registries ((hf.fails hfails).registries_of_call hcall) r key
  constructor
  case phase =>
    rw [History.calls_append_call, History.memoized_append_of_none rfl, hes, hmemoized]
    cases a with
    | error e =>
      have hfails' : Fails closures r f s ((es ++ [(i, e)]).map Prod.snd) s' := by
        rw [List.map_append]
        exact .one hfails hcall
      have hcalls' : failures es ++ [(i, .error e)] = failures (γ := γ) (es ++ [(i, e)]) := by
        simp [failures]
      rw [hcalls']
      exact .failing hfails'
    | ok v => exact .called hfails hcall (State.points_move_self ..)
  case allowed =>
    intro j
    rw [State.owner_move, State.store_move]
    by_cases hj : j = i
    · rw [hj, State.points_move_self, History.callsOf_append_call, hcalls]
      cases a with
      | error e => exact ⟨howned, rfl⟩
      | ok v => exact ⟨rfl, howned, hb'.trans hb, rfl⟩
    · rw [State.points_move_of_ne _ _ _ _ _ hj, History.callsOf_append_call_of_ne a hj]
      exact (hc.allowed j).mono id (fun _ hv => hb'.trans hv) (fun _ hv => hb'.trans hv)

theorem mem_failures {es : List (Fin n × ResolveError)} {i : Fin n} {v : Value γ} :
    (i, .ok v) ∉ failures es := by
  simp [failures]

theorem Consistent.memoize (hc : Consistent closures s r key f h T) {v : Value γ}
    (hp : T.points i = .memoizing f v) {s' : Store γ σ} {ms : Trace γ}
    (hmemoize : Run.memoize r key f v T.store = some ((), s', ms)) :
    Consistent closures s r key f (h ++ [(i, .memoize v)]) (T.move i (.releasing (.ok v)) s' T.owner) := by
  have hi := hc.allowed i
  rw [hp] at hi
  obtain ⟨-, howned, hb, hcalls⟩ := hi
  rw [Run.memoize_apply hb (by simp [Function.same])] at hmemoize
  cases hmemoize
  have hb' : (T.store.bind r key (.constant v)).binding? r key = some (.constant v) := by
    rw [Store.binding?_bind, if_pos ⟨rfl, rfl⟩]
  have hmem : (i, .ok v) ∈ h.calls := by
    rw [← History.mem_callsOf, hcalls]
    exact List.mem_singleton_self _
  constructor
  case phase =>
    rw [History.calls_append_of_none rfl, History.memoized_append_memoize]
    have hphase := hc.phase
    generalize h.calls = calls at hphase hmem ⊢
    generalize h.memoized = memoized at hphase ⊢
    cases hphase with
    | failing fails => exact absurd hmem mem_failures
    | called fails call memoizing =>
      obtain ⟨rfl, rfl⟩ : i = _ ∧ v = _ := by simpa [failures] using hmem
      exact .memoized fails call rfl
    | memoized fails call store =>
      rw [store, Store.binding?_bind, if_pos ⟨rfl, rfl⟩] at hb
      cases hb
  case allowed =>
    intro j
    rw [History.callsOf_append_of_none rfl, State.owner_move, State.store_move]
    by_cases hj : j = i
    · rw [hj, State.points_move_self, hcalls]
      exact ⟨howned, hb', by simp⟩
    · rw [State.points_move_of_ne _ _ _ _ _ hj]
      refine (hc.allowed j).mono id (fun w hw => ?_) (fun ho _ => ?_)
      · cases hb.symm.trans hw
      · exact absurd (Option.some.inj (ho.symm.trans howned)) hj

/-- Every step keeps it. -/
theorem Consistent.step (hf : Provided closures s r key f) (hc : Consistent closures s r key f h T) {a : Action γ}
    (hstep : Step closures r key T i a T') : Consistent closures s r key f (h ++ [(i, a)]) T' := by
  obtain ⟨moves, free⟩ := hstep
  have hi := hc.allowed i
  generalize hp : T.points i = p at moves hi
  cases moves with
  | read =>
    refine hc.quiet rfl rfl (by simp [hp]) (fun _ _ ho => ho) ?_
    rcases hc.phase.binding? hf with ⟨-, hb⟩ | ⟨_, v, -, hb⟩
    · rw [hb]
      exact ⟨rfl, hi⟩
    · rw [hb]
      exact ⟨⟨v, rfl, rfl⟩, nofun, hi⟩
  | lock =>
    refine hc.quiet rfl rfl (by simp [hp]) (fun _ _ ho => ?_) ⟨hi.1, rfl, hi.2⟩
    cases (free rfl).symm.trans ho
  | reread =>
    obtain ⟨rfl, howned, hcalls⟩ := hi
    refine hc.quiet rfl rfl (by simp [hp]) (fun _ _ ho => ho) ?_
    rcases hc.phase.binding? hf with ⟨-, hb⟩ | ⟨_, v, -, hb⟩
    · rw [hb, afterRereading_self]
      exact ⟨rfl, rfl, howned, rfl, hcalls⟩
    · rw [hb]
      exact ⟨⟨v, rfl, rfl⟩, fun _ => howned, hcalls⟩
  | call keep call =>
    obtain ⟨rfl, rfl, -⟩ := hi
    exact hc.call hf hp call
  | memoize memoize =>
    obtain ⟨rfl, -⟩ := hi
    exact hc.memoize hp memoize
  | resolve locked resolve =>
    obtain ⟨⟨v, rfl, hb⟩, howned, hcalls⟩ := hi
    obtain ⟨rfl, rfl⟩ := ends_resolve_constant resolve
    refine hc.quiet rfl rfl (by simp [hp]) (fun _ _ ho => ho) ?_
    have hanswered : Answered (T.store.binding? r key) (h.callsOf i) (.ok v) := ⟨hb, by simp [hcalls]⟩
    cases locked with
    | false => exact hanswered
    | true => exact ⟨howned rfl, hanswered⟩
  | inherit => exact hi.elim
  | release =>
    refine hc.quiet rfl rfl (by simp [hp]) (fun j hj ho => ?_) hi.2
    exact absurd (Option.some.inj (ho.symm.trans hi.1)) hj

/-- It holds after every history. -/
theorem Runs.consistent (hf : Provided closures s r key f) (hruns : Runs closures r key s h T) :
    Consistent closures s r key f h T := by
  induction hruns with
  | start =>
    have hnone : Phase closures s r key f (failures (n := n) []) [] ⟨s, none, fun _ => .reading⟩ := .failing .none
    exact ⟨hnone, fun _ => rfl⟩
  | next _ step ih => exact ih.step hf step

/-! ### What a thread can do -/

theorem Runs.move {a : Action γ} {p p' : Point γ} {s' : Store γ σ} (hr : Runs closures r key s h T)
    (hp : T.points i = p) (moves : Moves closures r key T.store p a s' p') (free : a = .lock → T.owner = none) :
    Runs closures r key s (h ++ [(i, a)]) (T.move i p' s' (a.owner i T.owner)) := by
  subst hp
  exact hr.next (.step moves free)

theorem Runs.reads (hr : Runs closures r key s h T) (hp : T.points i = .reading)
    (hb : T.store.binding? r key = some (.provider f true)) :
    ∃ h', Runs closures r key s h' (T.move i (.locking f) T.store T.owner) := by
  have hread := hr.move hp (.read T.store) (by simp)
  rw [hb] at hread
  exact ⟨_, hread⟩

/-- A thread that takes the lock comes to call the provider, if it is still bound. -/
theorem Runs.locks (hr : Runs closures r key s h T) (hp : T.points i = .locking f) (ho : T.owner = none)
    (hb : T.store.binding? r key = some (.provider f true)) :
    ∃ h', Runs closures r key s h' (T.move i (.calling f true) T.store (some i)) := by
  have hlock := hr.move hp (.lock T.store f) fun _ => ho
  have hreread := hlock.move (State.points_move_self ..) (.reread _ f) (by simp)
  rw [State.move_move, State.store_move, hb, afterRereading_self] at hreread
  exact ⟨_, hreread⟩

theorem Runs.fails (hr : Runs closures r key s h T) (hp : T.points i = .locking f) (ho : T.owner = none)
    (hb : T.store.binding? r key = some (.provider f true)) {e : ResolveError} {s' : Store γ σ} {ms : Trace γ}
    (hcall : Ends closures (call closures · r none f) T.store (.error e) s' ms) :
    ∃ h', Runs closures r key s h' (T.move i (.done (.error e)) s' none) := by
  obtain ⟨_, hlocked⟩ := hr.locks hp ho hb
  have hcalled := hlocked.move (State.points_move_self ..) (.call true hcall) (by simp)
  have hreleased := hcalled.move (State.points_move_self ..) (.release s' (.error e)) (by simp)
  rw [State.move_move, State.move_move] at hreleased
  exact ⟨_, hreleased⟩

theorem Runs.succeeds (hr : Runs closures r key s h T) (hp : T.points i = .locking f) (ho : T.owner = none)
    (hb : T.store.binding? r key = some (.provider f true)) {v : Value γ} {s' : Store γ σ} {ms : Trace γ}
    (hcall : Ends closures (call closures · r none f) T.store (.ok v) s' ms)
    (hb' : s'.binding? r key = some (.provider f true)) :
    ∃ h', Runs closures r key s h' (T.move i (.done (.ok v)) (s'.bind r key (.constant v)) none) := by
  obtain ⟨_, hlocked⟩ := hr.locks hp ho hb
  have hcalled := hlocked.move (State.points_move_self ..) (.call true hcall) (by simp)
  have hmemoized := hcalled.move (State.points_move_self ..)
    (.memoize (Run.memoize_apply hb' (by simp [Function.same]) v)) (by simp)
  have hreleased := hmemoized.move (State.points_move_self ..) (.release _ (.ok v)) (by simp)
  rw [State.move_move, State.move_move, State.move_move] at hreleased
  exact ⟨_, hreleased⟩

end Steps

/-! ### The same lookups in turn -/

section Turns

variable {closures : Closures γ σ} {s s' s₁ : Store γ σ} {r : Registry} {key : String} {f : Function γ} {ms : Trace γ}
  {as : List (Resolved γ)}

/-- Lookups of the key, one after the other, have these answers. -/
def InTurn (closures : Closures γ σ) (r : Registry) (key : String) (s : Store γ σ) (as : List (Resolved γ))
    (s' : Store γ σ) : Prop :=
  ∃ ms, Ends closures (fun low => Run.times (low.perform (.get r key)) as.length) s as s' ms

theorem InTurn.nil (s : Store γ σ) : InTurn closures r key s [] s :=
  ⟨[], 0, rfl⟩

theorem InTurn.cons {a : Resolved γ} (h : ∃ ms, (Activity.request (.get r key)).Ends closures s a s₁ ms)
    (has : InTurn closures r key s₁ as s') : InTurn closures r key s (a :: as) s' := by
  obtain ⟨ms, h⟩ := h
  obtain ⟨ms', has⟩ := has
  obtain ⟨n, h, has⟩ := h.both (fun h => h.perform _) (fun h => .times (h.perform _) _) has
  exact ⟨_, n, Run.bind_eq_some.2 ⟨a, s₁, ms, _, s', ms' ++ [], h,
    Run.bind_eq_some.2 ⟨as, s', ms', _, s', [], has, rfl, rfl⟩, rfl⟩⟩

/-- That is what a request for so many lookups gives. -/
theorem InTurn.ends (h : InTurn closures r key s as s') :
    ∃ ms, (Activity.request (.getInThreads r key as.length)).Ends closures s as s' ms := by
  obtain ⟨ms, n, h⟩ := h
  have hsucc := Run.Below.times ((level_below_succ closures n).perform (.get r key)) as.length _ _ h
  exact ⟨_, ends_perform_iff.2 ⟨n, Run.between_eq_some.2 ⟨ms, hsucc, rfl⟩⟩⟩

theorem ends_get_of_bound {b : Binding γ} {a : Resolved γ} (hb : s.binding? r key = some b)
    (h : ∃ ms, Ends closures (resolveBinding closures · r key b) s a s' ms) :
    ∃ ms, (Activity.request (.get r key)).Ends closures s a s' ms := by
  obtain ⟨ms, n, h⟩ := h
  obtain ⟨ms', h⟩ := perform_get_of_bound hb h
  exact ⟨ms', n + 3, h⟩

theorem InTurn.constants {v : Value γ} (hb : s.binding? r key = some (.constant v)) (k : Nat) :
    InTurn closures r key s (List.replicate k (.ok v)) s := by
  induction k with
  | zero => exact .nil s
  | succ k ih => exact .cons (ends_get_of_bound hb ⟨_, 0, rfl⟩) ih

/-- The lookup that calls the provider successfully memoizes its value. -/
theorem InTurn.success (hf : Provided closures s r key f) {v : Value γ}
    (hcall : Ends closures (call closures · r none f) s (.ok v) s₁ ms)
    (has : InTurn closures r key (s₁.bind r key (.constant v)) as s') : InTurn closures r key s (.ok v :: as) s' := by
  refine .cons (ends_get_of_bound hf.bound ?_) has
  obtain ⟨n, hcall'⟩ := hcall
  have hb : s₁.binding? r key = some (.provider f true) :=
    (hf.of_registries (hf.registries_of_call ⟨n, hcall'⟩)).bound
  exact ⟨_, n, provideOnce_eq_some.2
    (.inr ⟨v, s₁, ms, _, hcall', Run.memoize_apply hb (by simp [Function.same]) v, rfl, rfl⟩)⟩

/-- As long as the provider fails, so do the lookups. -/
theorem InTurn.failures (hf : Provided closures s r key f) {es : List ResolveError}
    (hfails : Fails closures r f s es s₁) (has : InTurn closures r key s₁ as s') :
    InTurn closures r key s (es.map .error ++ as) s' := by
  induction hfails generalizing as with
  | none => exact has
  | one fails call ih =>
    rw [List.map_append, List.append_assoc]
    refine ih (.cons (ends_get_of_bound (hf.fails fails).bound ?_) has)
    obtain ⟨n, call⟩ := call
    exact ⟨_, n, provideOnce_eq_some.2 (.inl ⟨_, _, call, rfl, rfl⟩)⟩

end Turns

/-! ### All answers -/

section Answers

variable {es : List (Fin n × ResolveError)} {answer : Fin n → Resolved γ}

theorem errorOf_eq_some {x : Resolved γ} {e : ResolveError} : errorOf x = some e ↔ x = .error e := by
  cases x <;> simp [errorOf]

/-- If every thread that fails has made one call, which gave its error, and the others have made no failing call, then
the answers are the errors of the failing calls and the answers of the others. -/
theorem perm_answers (hes : ∀ i, (es.filter (·.1 = i)).map Prod.snd = (errorOf (answer i)).toList) :
    (es.map (Except.error ∘ Prod.snd) ++
      ((List.finRange n).filter fun i => (errorOf (answer i)).isNone).map answer).Perm (List.ofFn answer) := by
  have hanswer : es.map (Except.error ∘ Prod.snd) = (es.map Prod.fst).map answer := by
    rw [List.map_map]
    refine List.map_congr_left fun x hx => ?_
    have hmem : x.2 ∈ (errorOf (answer x.1)).toList := by
      rw [← hes x.1]
      exact List.mem_map_of_mem (List.mem_filter.2 ⟨hx, by simp⟩)
    exact (errorOf_eq_some.1 (Option.mem_toList.1 hmem)).symm
  -- the threads of failing calls are those that fail, each once
  have hthreads : (es.map Prod.fst).Perm ((List.finRange n).filter fun i => !(errorOf (answer i)).isNone) := by
    rw [List.perm_iff_count]
    intro i
    have hcount : (es.map Prod.fst).count i = (errorOf (answer i)).toList.length := by
      rw [← hes i, List.length_map, List.count_eq_countP, List.countP_map, List.countP_eq_length_filter]
      congr 2
    rw [hcount]
    cases h : errorOf (answer i) with
    | none => exact (List.count_eq_zero.2 (by simp [h])).symm
    | some e => simp [List.count_filter, h, List.count_finRange]
  rw [hanswer, ← List.map_append, List.ofFn_eq_map]
  refine List.Perm.map answer ((hthreads.append_right _).trans ?_)
  exact List.perm_append_comm.trans (List.filter_append_perm _ _)

/-- If those that succeed all have the same value, their answers are so many times that value. -/
theorem map_answer_eq_replicate {v : Value γ} {i : Fin n} (hi : (errorOf (answer i)).isNone)
    (hv : ∀ j, (errorOf (answer j)).isNone → answer j = .ok v) :
    ∃ k, ((List.finRange n).filter fun i => (errorOf (answer i)).isNone).map answer =
      List.replicate (k + 1) (.ok v) := by
  have hmem : i ∈ (List.finRange n).filter fun i => (errorOf (answer i)).isNone :=
    List.mem_filter.2 ⟨List.mem_finRange i, hi⟩
  obtain ⟨k, hk⟩ := Nat.exists_eq_succ_of_ne_zero (Nat.pos_iff_ne_zero.1 (List.length_pos_of_mem hmem))
  refine ⟨k, ?_⟩
  rw [← Nat.succ_eq_add_one, ← hk, List.map_eq_replicate_iff]
  exact fun j hj => hv j (List.mem_filter.1 hj).2

end Answers

/-! ### After every history -/

section

variable {closures : Closures γ σ} {s : Store γ σ} {r : Registry} {key : String} {f : Function γ} {h : History γ n}
  {T : State γ σ n}

/-- What can be told after a history of threads that look up the key, begun in the store `s`. -/
structure CallsOnce (closures : Closures γ σ) (s : Store γ σ) (r : Registry) (key : String) (f : Function γ)
    (h : History γ n) (T : State γ σ n) : Prop where
  once : (h.calls.filter fun x => x.2.isOk).length ≤ 1
  /-- A thread that has got a value has got that of the successful call. -/
  value : ∀ {i v}, T.points i = .done (.ok v) → ∃ j, (j, .ok v) ∈ h.calls
  /-- A thread that has failed has made one call, and that call failed. -/
  error : ∀ {i e}, T.points i = .done (.error e) → h.callsOf i = [.error e]
  /-- Until a value is memoized, the provider is bound. -/
  before : h.memoized = [] → T.store.binding? r key = some (.provider f true)
  /-- Only the value of the successful call is memoized, and it is bound from then on. -/
  after : ∀ {i v}, (i, v) ∈ h.memoized → (i, .ok v) ∈ h.calls ∧ T.store.binding? r key = some (.constant v)
  /-- The answers are those of the same lookups made one after the other, which leave the same store. -/
  inTurn : ∀ {answer : Fin n → Resolved γ}, (∀ i, T.points i = .done (answer i)) →
    ∃ as ms, (Activity.request (.getInThreads r key n)).Ends closures s as T.store ms ∧ as.Perm (List.ofFn answer)

/-- Threads that are done have these answers. -/
theorem Consistent.answered (hc : Consistent closures s r key f h T) {i : Fin n} {a : Resolved γ}
    (hi : T.points i = .done a) : Answered (T.store.binding? r key) (h.callsOf i) a := by
  have := hc.allowed i
  rwa [hi] at this

/-- The errors of the thread's calls are the error that it has failed with, if it has. -/
theorem Answered.errors {b : Option (Binding γ)} {calls : List (Resolved γ)} {a : Resolved γ} (h : Answered b calls a) :
    calls.filterMap errorOf = (errorOf a).toList := by
  cases a with
  | error e =>
    rw [show calls = [.error e] from h]
    rfl
  | ok v =>
    rw [show (errorOf (.ok v : Resolved γ)).toList = [] from rfl, List.filterMap_eq_nil_iff]
    intro x hx
    cases x with
    | error e => exact absurd hx (h.2 e)
    | ok w => rfl

/-- The errors of a thread's calls, if the calls failed so until one succeeded. -/
theorem callsOf_errors {es : List (Fin n × ResolveError)} {late : List (Fin n × Resolved γ)}
    (hcalls : h.calls = failures es ++ late) (hlate : ∀ x ∈ late, errorOf x.2 = none) (i : Fin n) :
    (h.callsOf i).filterMap errorOf = (es.filter (·.1 = i)).map Prod.snd := by
  have hlate' : ((late.filter (·.1 = i)).map Prod.snd).filterMap errorOf = [] := by
    rw [List.filterMap_eq_nil_iff]
    intro x hx
    obtain ⟨y, hy, rfl⟩ := List.mem_map.1 hx
    exact hlate y (List.mem_filter.1 hy).1
  rw [History.callsOf, hcalls, List.filter_append, List.map_append, List.filterMap_append, hlate', List.append_nil]
  clear hcalls
  induction es with
  | nil => rfl
  | cons x es ih =>
    by_cases hx : x.1 = i
    · simpa [failures, hx, errorOf] using ih
    · simpa [failures, hx] using ih

/-- When all threads are done, the calls of the history are those of lookups in turn. -/
theorem Consistent.inTurn (hf : Provided closures s r key f) (hc : Consistent closures s r key f h T)
    {answer : Fin n → Resolved γ} (hdone : ∀ i, T.points i = .done (answer i)) :
    ∃ as, InTurn closures r key s as T.store ∧ as.Perm (List.ofFn answer) := by
  have hanswered (i : Fin n) := hc.answered (hdone i)
  have hes {es : List (Fin n × ResolveError)} {late : List (Fin n × Resolved γ)}
      (hcalls : h.calls = failures es ++ late) (hlate : ∀ x ∈ late, errorOf x.2 = none) (i : Fin n) :
      (es.filter (·.1 = i)).map Prod.snd = (errorOf (answer i)).toList := by
    rw [← callsOf_errors hcalls hlate, (hanswered i).errors]
  have hvalue {i : Fin n} (hi : (errorOf (answer i)).isNone) :
      ∃ v, answer i = .ok v ∧ T.store.binding? r key = some (.constant v) := by
    have ha := hanswered i
    cases hx : answer i with
    | error e =>
      rw [hx] at hi
      cases hi
    | ok v =>
      rw [hx] at ha
      exact ⟨v, rfl, ha.1⟩
  have hphase := hc.phase
  generalize hcalls : h.calls = calls at hphase
  generalize h.memoized = memoized at hphase
  cases hphase with
  | @failing es _ fails =>
    have hnone : (List.finRange n).filter (fun i => (errorOf (answer i)).isNone) = [] := by
      refine List.filter_eq_nil_iff.2 fun i _ hi => ?_
      obtain ⟨v, -, hb⟩ := hvalue hi
      cases (hf.fails fails).bound.symm.trans hb
    refine ⟨_, InTurn.failures hf fails (.nil _), ?_⟩
    have hcalls' : h.calls = failures es ++ [] := by rw [hcalls, List.append_nil]
    have hperm := perm_answers (hes hcalls' nofun)
    rw [hnone] at hperm
    rwa [List.map_map]
  | called fails call memoizing => cases (hdone _).symm.trans memoizing
  | @memoized es i v s₁ s₂ _ _ fails call store =>
    have hb : T.store.binding? r key = some (.constant v) := by
      rw [store, Store.binding?_bind, if_pos ⟨rfl, rfl⟩]
    have hlate : ∀ x ∈ [(i, (.ok v : Resolved γ))], errorOf x.2 = none := by
      intro x hx
      rw [List.mem_singleton.1 hx]
      rfl
    have hperm := perm_answers (hes hcalls hlate)
    have hi : (errorOf (answer i)).isNone := by
      have hmem : .ok v ∈ h.callsOf i := by
        rw [History.mem_callsOf, hcalls]
        exact List.mem_append_right _ (List.mem_singleton_self _)
      have ha := hanswered i
      cases hx : answer i with
      | error e =>
        rw [hx] at ha
        rw [show h.callsOf i = [.error e] from ha] at hmem
        simp at hmem
      | ok w => rfl
    -- whoever has a value has the one that is bound, and the thread of the successful call has it
    obtain ⟨k, hk⟩ := map_answer_eq_replicate (v := v) hi fun j hj => by
      obtain ⟨w, hw, hbw⟩ := hvalue hj
      cases hb.symm.trans hbw
      exact hw
    rw [hk] at hperm
    have hlater : InTurn closures r key (s₂.bind r key (.constant v)) (List.replicate k (.ok v)) T.store := by
      rw [store] at hb ⊢
      exact .constants hb k
    exact ⟨_, InTurn.failures hf fails (.success (hf.fails fails) call hlater), by rwa [List.map_map]⟩

theorem Phase.once {calls : List (Fin n × Resolved γ)} {memoized : List (Fin n × Value γ)}
    (hphase : Phase closures s r key f calls memoized T) : (calls.filter fun x => x.2.isOk).length ≤ 1 := by
  have hfailures (es : List (Fin n × ResolveError)) : (failures (γ := γ) es).filter (fun x => x.2.isOk) = [] := by
    refine List.filter_eq_nil_iff.2 fun x hx => ?_
    obtain ⟨y, -, rfl⟩ := List.mem_map.1 hx
    exact Bool.false_ne_true
  cases hphase with
  | failing => simp [hfailures]
  | called | memoized =>
    rw [List.filter_append, hfailures, List.nil_append]
    exact List.length_filter_le _ _

/-- Only the value of a successful call is ever bound. -/
theorem Phase.called_of_constant (hf : Provided closures s r key f) {calls : List (Fin n × Resolved γ)}
    {memoized : List (Fin n × Value γ)} (hphase : Phase closures s r key f calls memoized T) {v : Value γ}
    (hb : T.store.binding? r key = some (.constant v)) :
    ∃ i, memoized = [(i, v)] ∧ (i, .ok v) ∈ calls := by
  rcases hphase.binding? hf with ⟨-, hb'⟩ | ⟨i, w, hm, hb'⟩
  · cases hb.symm.trans hb'
  · cases hb.symm.trans hb'
    cases hphase with
    | failing | called => cases hm
    | memoized =>
      cases hm
      exact ⟨i, rfl, List.mem_append_right _ (List.mem_singleton_self _)⟩

/-- Whatever threads do to look up the key, however their steps interleave and whichever calls fail, the provider is
called successfully at most once and all have the value of that call. -/
theorem called_once (hf : Provided closures s r key f) (hruns : Runs closures r key s h T) :
    CallsOnce closures s r key f h T := by
  have hc := hruns.consistent hf
  exact {
    once := hc.phase.once
    value := by
      intro i v hi
      obtain ⟨j, -, hj⟩ := hc.phase.called_of_constant hf (hc.answered hi).1
      exact ⟨j, hj⟩
    error := hc.answered
    before := by
      intro hm
      rcases hc.phase.binding? hf with ⟨-, hb⟩ | ⟨i, v, hm', -⟩
      · exact hb
      · cases hm.symm.trans hm'
    after := by
      intro i v hi
      rcases hc.phase.binding? hf with ⟨hm, -⟩ | ⟨j, w, hm, hb⟩
      · rw [hm] at hi
        cases hi
      · obtain ⟨k, hm', hk⟩ := hc.phase.called_of_constant hf hb
        rw [hm'] at hi
        cases List.mem_singleton.1 hi
        exact ⟨hk, hb⟩
    inTurn := by
      intro answer hdone
      obtain ⟨as, has, hperm⟩ := hc.inTurn hf hdone
      obtain ⟨ms, hms⟩ := has.ends
      rw [hperm.length_eq, List.length_ofFn] at hms
      exact ⟨as, ms, hms, hperm⟩ }

end

end Threads

/-! The first of two threads gets the lock and fails; the second, which has read the provider before that, succeeds. -/

namespace FailsFirst

open Threads

def only : Registry := ⟨0, "only"⟩

def provider : Function Unit := ⟨1, "() => 0", ⟨[]⟩, ()⟩

/-- The closure counts its calls and fails in the first. -/
def closures : Closures Unit Nat where
  call _ _ := .ask .readMemory fun count => .ask (.writeMemory (count + 1)) fun _ =>
    if count = 0 then .done (.error (.custom "not yet")) else .ask (.newValue .unit) fun v => .done (.ok v)
  construct _ _ := .done (.error (.custom "no instance"))

theorem detached_closures : closures.Detached where
  call _ _ := by
    refine ⟨trivial, fun count => ⟨trivial, fun _ => ?_⟩⟩
    split
    · trivial
    · exact ⟨trivial, fun _ => trivial⟩
  construct _ _ := trivial

def store : Store Unit Nat :=
  (Store.empty 0).bind only "k" (.provider provider true)

theorem provided_store : Provided closures store only "k" provider where
  bound := rfl
  parameters _ hk := absurd hk List.not_mem_nil
  detached n a := runCallee_detached detached_closures n (.function provider) a

theorem binding?_store : store.binding? only "k" = some (.provider provider true) := rfl

/-- What the provider leaves behind and gives when it is called for the first time. -/
theorem call_first : ∃ ms, Ends closures (call closures · only none provider) store
    (.error (.instantiate (.custom "not yet"))) { store with memory := 1 } ms :=
  ⟨_, 2, rfl⟩

theorem call_second : ∃ ms, Ends closures (call closures · only none provider) { store with memory := 1 }
    (.ok ⟨0, .unit⟩) { store with memory := 2, fresh := 1 } ms :=
  ⟨_, 2, rfl⟩

/-- Both have read the provider before the first takes the lock. -/
theorem runs_both : ∃ (h : History Unit 2) (T : State Unit Nat 2), Runs closures only "k" store h T ∧
    T.points 0 = .done (.error (.instantiate (.custom "not yet"))) ∧ T.points 1 = .done (.ok ⟨0, .unit⟩) := by
  obtain ⟨ms₁, hfirst⟩ := call_first
  obtain ⟨ms₂, hsecond⟩ := call_second
  obtain ⟨h₁, hr₁⟩ := Runs.start.reads (i := (0 : Fin 2)) rfl binding?_store
  obtain ⟨h₂, hr₂⟩ := hr₁.reads (i := 1) rfl binding?_store
  obtain ⟨h₃, hr₃⟩ := hr₂.fails (i := 0) rfl rfl binding?_store hfirst
  obtain ⟨h₄, hr₄⟩ := hr₃.succeeds (i := 1) rfl rfl binding?_store hsecond binding?_store
  exact ⟨h₄, _, hr₄, rfl, rfl⟩

theorem called_once_both : ∃ (h : History Unit 2) (T : State Unit Nat 2),
    Provided closures store only "k" provider ∧ Runs closures only "k" store h T ∧
      T.points 0 = .done (.error (.instantiate (.custom "not yet"))) ∧ T.points 1 = .done (.ok ⟨0, .unit⟩) ∧
      CallsOnce closures store only "k" provider h T := by
  obtain ⟨h, T, hr, hfirst, hsecond⟩ := runs_both
  exact ⟨h, T, provided_store, hr, hfirst, hsecond, called_once provided_store hr⟩

end FailsFirst

end Injection
