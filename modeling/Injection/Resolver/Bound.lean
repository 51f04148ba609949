import Injection.Resolver

/-!
# The bound on nested steps

The bound decides only whether a run ends.  Every rule of resolution gives over a level that performs more all that
it gives over one that performs less, so a run that ends within a bound is the same within every larger one
(`runWithin_mono`).
-/

namespace Injection

open Run

variable {γ σ α β ε : Type}

/-- Whatever the first run gives, the second gives too. -/
def Run.Below (m m' : Run γ σ α) : Prop :=
  ∀ s x, m s = some x → m' s = some x

namespace Run.Below

theorem refl (m : Run γ σ α) : m.Below m :=
  fun _ _ h => h

theorem outOfBound (m : Run γ σ α) : (outOfBound : Run γ σ α).Below m :=
  fun _ _ h => absurd h outOfBound_ne_some

theorem trans {m m' m'' : Run γ σ α} (h : m.Below m') (h' : m'.Below m'') : m.Below m'' :=
  fun s x hx => h' s x (h s x hx)

theorem bind {m m' : Run γ σ α} {f f' : α → Run γ σ β} (hm : m.Below m') (hf : ∀ a, (f a).Below (f' a)) :
    (m >>= f).Below (m' >>= f') := by
  intro s x hx
  obtain ⟨a, s', ms, b, s'', ms', h, h', rfl⟩ := bind_eq_some.1 hx
  exact bind_eq_some.2 ⟨a, s', ms, b, s'', ms', hm _ _ h, hf a _ _ h', rfl⟩

theorem between {m m' : Run γ σ α} (first : Mark γ) (last : α → Mark γ) (h : m.Below m') :
    (between first m last).Below (between first m' last) :=
  .bind (refl _) fun _ => .bind h fun _ => refl _

theorem inside {m m' : Run γ σ α} (span : Span) (h : m.Below m') : (inside span m).Below (inside span m') :=
  .between _ _ h

theorem reporting {m m' : Run γ σ (Except ResolveError α)} (h : m.Below m') :
    (reporting m).Below (reporting m') := by
  refine .bind h fun x => ?_
  cases x <;> exact refl _

theorem asCall {m m' : Run γ σ (Except ε α)} (c : Call) (message : ε → String) (h : m.Below m') :
    (asCall c message m).Below (asCall c message m') :=
  .between _ _ h

theorem times {m m' : Run γ σ α} (h : m.Below m') (n : Nat) : (times m n).Below (times m' n) := by
  induction n with
  | zero => exact refl _
  | succ n ih => exact .bind h fun _ => .bind ih fun _ => refl _

end Run.Below

/-- A program gives over requests that are performed more often all that it gives otherwise. -/
theorem Program.run_below {f g : (q : Request γ σ) → Run γ σ q.Answer} (h : ∀ q, (f q).Below (g q))
    (p : Program γ σ α) : (p.run f).Below (p.run g) := by
  induction p with
  | done a => exact .refl _
  | ask q next ih => exact .bind (h q) ih

namespace Resolver

/-- Whatever the first resolver gives, the second gives too. -/
structure Below (low high : Resolver γ σ) : Prop where
  resolve : ∀ r key, (low.resolve r key).Below (high.resolve r key)
  search : ∀ r key, (low.search r key).Below (high.search r key)
  perform : ∀ q, (low.perform q).Below (high.perform q)

namespace Below

variable {closures : Closures γ σ} {low high top : Resolver γ σ}

theorem refl (low : Resolver γ σ) : low.Below low :=
  ⟨fun _ _ => .refl _, fun _ _ => .refl _, fun _ => .refl _⟩

theorem trans (h : low.Below high) (h' : high.Below top) : low.Below top :=
  ⟨fun r key => (h.resolve r key).trans (h'.resolve r key), fun r key => (h.search r key).trans (h'.search r key),
    fun q => (h.perform q).trans (h'.perform q)⟩

theorem resolveAll (h : low.Below high) (r : Registry) (keys : List String) :
    (resolveAll low r keys).Below (resolveAll high r keys) := by
  induction keys with
  | nil => exact .refl _
  | cons key keys ih =>
    refine .bind (h.resolve r key) fun x => ?_
    cases x with
    | error e => exact .refl _
    | ok v =>
      refine .bind ih fun x => ?_
      cases x <;> exact .refl _

theorem runFunction (h : low.Below high) (f : Function γ) (a : Arguments γ) :
    (runFunction closures low f a).Below (runFunction closures high f a) :=
  .between _ _ (Program.run_below h.perform _)

theorem runConstructor (h : low.Below high) (c : Class γ) (a : Arguments γ) :
    (runConstructor closures low c a).Below (runConstructor closures high c a) := by
  refine .between _ _ (.bind (Program.run_below h.perform _) fun x => ?_)
  cases x <;> exact .refl _

theorem call (h : low.Below high) (r : Registry) (receiver : Option (Value γ)) (f : Function γ) :
    (call closures low r receiver f).Below (call closures high r receiver f) := by
  refine .inside _ (.bind (h.resolveAll r _) fun x => ?_)
  cases x with
  | error e => exact .refl _
  | ok values => exact .bind (h.runFunction f _) fun _ => .refl _

theorem construct (h : low.Below high) (r : Registry) (c : Class γ) :
    (construct closures low r c).Below (construct closures high r c) := by
  refine .inside _ (.bind (h.resolveAll r _) fun x => ?_)
  cases x with
  | error e => exact .refl _
  | ok values => exact .bind (h.runConstructor c _) fun _ => .refl _

theorem provide (h : low.Below high) (r : Registry) (key : String) (f : Function γ) :
    (provide closures low r key f).Below (provide closures high r key f) := by
  refine .bind (h.call r none f) fun x => ?_
  cases x <;> exact .refl _

theorem provideOnce (h : low.Below high) (r : Registry) (key : String) (f : Function γ) :
    (provideOnce closures low r key f).Below (provideOnce closures high r key f) := by
  refine .between _ _ (.bind (h.provide r key f) fun x => ?_)
  cases x <;> exact .refl _

theorem resolveBinding (h : low.Below high) (r : Registry) (key : String) (b : Binding γ) :
    (resolveBinding closures low r key b).Below (resolveBinding closures high r key b) := by
  cases b with
  | constant v => exact .refl _
  | singleton v => exact .refl _
  | transient c => exact h.construct r c
  | provider f cached =>
    cases cached with
    | false => exact h.provide r key f
    | true => exact h.provideOnce r key f

theorem searchParents (h : low.Below high) (key : String) (ps : List Registry) :
    (searchParents low key ps).Below (searchParents high key ps) := by
  induction ps with
  | nil => exact .refl _
  | cons p ps ih =>
    refine .bind (h.search p key) fun found => ?_
    cases found with
    | none => exact ih
    | some x =>
      cases x with
      | error e => exact .bind (.refl _) fun _ => ih
      | ok v => exact .refl _

theorem searchFrom (h : low.Below high) (r : Registry) (key : String) :
    (searchFrom closures low r key).Below (searchFrom closures high r key) := by
  refine .between _ _ (.bind (.refl _) fun x => ?_)
  cases x with
  | none => exact .bind (.refl _) fun _ => h.searchParents key _
  | some b => exact .bind (h.resolveBinding r key b) fun _ => .refl _

theorem resolveKey (h : low.Below high) (r : Registry) (key : String) :
    (resolveKey low r key).Below (resolveKey high r key) := by
  refine .inside _ (.bind (h.search r key) fun x => ?_)
  cases x <;> exact .refl _

theorem get (h : low.Below high) (r : Registry) (key : String) : (get low r key).Below (get high r key) :=
  .reporting (h.resolve r key)

theorem invoke (h : low.Below high) (r : Registry) (receiver : Option (Value γ)) (f : Function γ) :
    (invoke closures low r receiver f).Below (invoke closures high r receiver f) :=
  .reporting (h.call r receiver f)

theorem instantiate (h : low.Below high) (r : Registry) (c : Class γ) :
    (instantiate closures low r c).Below (instantiate closures high r c) :=
  .reporting (h.construct r c)

theorem bindResult {m m' : Run γ σ (Resolved γ)} (r : Registry) (key : String) (kind : Value γ → Binding γ)
    (h : m.Below m') : (bindResult r key kind m).Below (bindResult r key kind m') := by
  refine .bind h fun x => ?_
  cases x <;> exact .refl _

theorem performWith (h : low.Below high) (q : Request γ σ) :
    (performWith closures low q).Below (performWith closures high q) := by
  cases q with
  | get r key => exact .asCall _ _ (h.get r key)
  | getAs r key t =>
    refine .asCall _ _ (.bind (h.get r key) fun x => ?_)
    cases x <;> exact .refl _
  | invoke r receiver f => exact .asCall _ _ (h.invoke r receiver f)
  | invokeValue r receiver target =>
    refine .asCall _ _ ?_
    unfold Resolver.invokeValue
    split
    · exact h.invoke r receiver _
    · exact .refl _
  | instantiate r c => exact .asCall _ _ (h.instantiate r c)
  | singleton r key c => exact .asCall _ _ (bindResult r key _ (h.instantiate r c))
  | register r key f => exact .asCall _ _ (bindResult r key _ (h.invoke r none f))
  | call f a => exact h.runFunction f a
  | construct c a => exact h.runConstructor c a
  | getInThreads r key threads => exact .between _ _ (.times (.asCall _ _ (h.get r key)) threads)
  | _ => exact .refl _

end Below

theorem level_below_succ (closures : Closures γ σ) (n : Nat) : (level closures n).Below (level closures (n + 1)) := by
  induction n with
  | zero => exact ⟨fun _ _ => .outOfBound _, fun _ _ => .outOfBound _, fun _ => .outOfBound _⟩
  | succ n ih => exact ⟨ih.resolveKey, ih.searchFrom, ih.performWith⟩

theorem level_below (closures : Closures γ σ) {n m : Nat} (h : n ≤ m) :
    (level closures n).Below (level closures m) := by
  induction h with
  | refl => exact .refl _
  | step _ ih => exact ih.trans (level_below_succ closures _)

end Resolver

/-- A run that ends within a bound is the same within every larger one. -/
theorem Program.runWithin_mono (closures : Closures γ σ) {n m : Nat} (h : n ≤ m) (p : Program γ σ α) :
    (p.runWithin closures n).Below (p.runWithin closures m) :=
  Program.run_below (Resolver.level_below closures h).perform p

end Injection
