import Injection.Proofs.Resolver.During

/-!
# Lookups in threads

Threads look up one key of a registry at the same time.  A lookup is split into the steps that no other thread can
interrupt: it reads the binding, takes the lock of the registry if the binding is a cached provider, reads the binding
again, calls the provider, memoizes its value and releases the lock.  Whatever else a lookup may come to is one step.

A history of such steps can interleave them in any way; only a lock that is taken cannot be taken.  A thread that is
alone comes to what the resolution of the key comes to: `Threads.path_iff_resolve`.
-/

namespace Injection

open Resolver

variable {γ σ : Type} {n : Nat}

namespace Threads

/-! ### One thread -/

/-- Where a thread is in its lookup. -/
inductive Point (γ : Type)
  | reading
  /-- It waits for the lock to call the provider that it has read. -/
  | locking (f : Function γ)
  | rereading (f : Function γ)
  /-- If `keep` holds, the value is to be memoized. -/
  | calling (f : Function γ) (keep : Bool)
  | memoizing (f : Function γ) (v : Value γ)
  | resolving (b : Binding γ) (locked : Bool)
  | inheriting
  | releasing (a : Resolved γ)
  | done (a : Resolved γ)

/-- What a thread does in a step. -/
inductive Action (γ : Type)
  | read
  | lock
  | reread
  | call (a : Resolved γ)
  | memoize (v : Value γ)
  | resolve
  | inherit
  | release

/-- What comes after the binding was read. -/
def afterReading : Option (Binding γ) → Point γ
  | some (.provider f true) => .locking f
  | some b => .resolving b false
  | none => .inheriting

/-- What comes after the binding was read again under the lock.  By then it may be another one. -/
def afterRereading (f : Function γ) : Option (Binding γ) → Point γ
  | some (.provider g cached) => if g.same f then .calling f true else .resolving (.provider g cached) true
  | some b => .resolving b true
  | none => .calling f false

/-- The provider that was read is still there. -/
theorem afterRereading_self (f : Function γ) (cached : Bool) :
    afterRereading f (some (.provider f cached)) = .calling f true := by
  simp [afterRereading, Function.same]

def afterCalling (f : Function γ) (keep : Bool) : Resolved γ → Point γ
  | .ok v => if keep then .memoizing f v else .releasing (.ok v)
  | .error e => .releasing (.error e)

/-- The thread can take this step in the store. -/
inductive Moves (closures : Closures γ σ) (r : Registry) (key : String) :
    Store γ σ → Point γ → Action γ → Store γ σ → Point γ → Prop
  | read (s : Store γ σ) : Moves closures r key s .reading .read s (afterReading (s.binding? r key))
  | lock (s : Store γ σ) (f : Function γ) : Moves closures r key s (.locking f) .lock s (.rereading f)
  | reread (s : Store γ σ) (f : Function γ) :
    Moves closures r key s (.rereading f) .reread s (afterRereading f (s.binding? r key))
  | call {s s' : Store γ σ} {f : Function γ} {a : Resolved γ} {ms : Trace γ} (keep : Bool)
    (call : Ends closures (call closures · r none f) s a s' ms) :
    Moves closures r key s (.calling f keep) (.call a) s' (afterCalling f keep a)
  | memoize {s s' : Store γ σ} {f : Function γ} {v : Value γ} {ms : Trace γ}
    (memoize : Run.memoize r key f v s = some ((), s', ms)) :
    Moves closures r key s (.memoizing f v) (.memoize v) s' (.releasing (.ok v))
  | resolve {s s' : Store γ σ} {b : Binding γ} {a : Resolved γ} {ms : Trace γ} (locked : Bool)
    (resolve : Ends closures (resolveBinding closures · r key b) s a s' ms) :
    Moves closures r key s (.resolving b locked) .resolve s' (if locked then .releasing a else .done a)
  | inherit {s s' : Store γ σ} {x : Option (Resolved γ)} {ms : Trace γ}
    (inherit : Ends closures (searchParents · key (s.parents r).reverse) s x s' ms) :
    Moves closures r key s .inheriting .inherit s' (.done (x.getD (.error (unregisteredIn s' r key))))
  | release (s : Store γ σ) (a : Resolved γ) : Moves closures r key s (.releasing a) .release s (.done a)

/-! ### All threads -/

/-- All threads share the store; one of them may hold the registry's lock. -/
structure State (γ σ : Type) (n : Nat) where
  store : Store γ σ
  owner : Option (Fin n)
  points : Fin n → Point γ

/-- Who holds the lock after the step. -/
def Action.owner (i : Fin n) (owner : Option (Fin n)) : Action γ → Option (Fin n)
  | .lock => some i
  | .release => none
  | _ => owner

/-- The thread gets to the point and leaves this store, and that thread then holds the lock. -/
def State.move (T : State γ σ n) (i : Fin n) (p : Point γ) (s : Store γ σ) (owner : Option (Fin n)) : State γ σ n :=
  ⟨s, owner, Function.update T.points i p⟩

section

variable (T : State γ σ n) (i : Fin n) (p : Point γ) (s : Store γ σ) (owner : Option (Fin n))

@[simp] theorem State.store_move : (T.move i p s owner).store = s := rfl

@[simp] theorem State.owner_move : (T.move i p s owner).owner = owner := rfl

@[simp] theorem State.points_move_self : (T.move i p s owner).points i = p :=
  Function.update_self ..

theorem State.points_move_of_ne {j : Fin n} (h : j ≠ i) : (T.move i p s owner).points j = T.points j :=
  Function.update_of_ne h ..

/-- Where the thread was before does not matter. -/
@[simp] theorem State.move_move (p' : Point γ) (s' : Store γ σ) (owner' : Option (Fin n)) :
    (T.move i p s owner).move i p' s' owner' = T.move i p' s' owner' := by
  simp [move]

end

/-- The thread takes the step; the others stay where they are. -/
inductive Step (closures : Closures γ σ) (r : Registry) (key : String) (T : State γ σ n) (i : Fin n) (a : Action γ) :
    State γ σ n → Prop
  | step {s : Store γ σ} {p : Point γ} (moves : Moves closures r key T.store (T.points i) a s p)
    (free : a = .lock → T.owner = none) : Step closures r key T i a (T.move i p s (a.owner i T.owner))

/-- The steps that have been taken, in order. -/
abbrev History (γ : Type) (n : Nat) := List (Fin n × Action γ)

/-- After this history all threads together are here; in the beginning none has read anything. -/
inductive Runs (closures : Closures γ σ) (r : Registry) (key : String) (s : Store γ σ) :
    History γ n → State γ σ n → Prop
  | start : Runs closures r key s [] ⟨s, none, fun _ => .reading⟩
  | next {h : History γ n} {T T' : State γ σ n} {i : Fin n} {a : Action γ} (runs : Runs closures r key s h T)
    (step : Step closures r key T i a T') : Runs closures r key s (h ++ [(i, a)]) T'

/-- The outcome of the provider, if the step calls it. -/
def Action.outcome? : Action γ → Option (Resolved γ)
  | .call a => some a
  | _ => none

/-- The value that the step memoizes. -/
def Action.memoized? : Action γ → Option (Value γ)
  | .memoize v => some v
  | _ => none

namespace History

/-- The calls of the provider and their outcomes. -/
def calls (h : History γ n) : List (Fin n × Resolved γ) :=
  h.filterMap fun x => x.2.outcome?.map (x.1, ·)

/-- The outcomes of the thread's calls. -/
def callsOf (h : History γ n) (i : Fin n) : List (Resolved γ) :=
  (h.calls.filter (·.1 = i)).map Prod.snd

/-- The values that have been memoized, and by whom. -/
def memoized (h : History γ n) : List (Fin n × Value γ) :=
  h.filterMap fun x => x.2.memoized?.map (x.1, ·)

variable {h : History γ n} {i j : Fin n} {a : Action γ}

theorem calls_append_of_none (ha : a.outcome? = none) : calls (h ++ [(i, a)]) = h.calls := by
  simp [calls, ha]

theorem callsOf_append_of_none (ha : a.outcome? = none) (j : Fin n) : callsOf (h ++ [(i, a)]) j = h.callsOf j := by
  rw [callsOf, calls_append_of_none ha, callsOf]

theorem memoized_append_of_none (ha : a.memoized? = none) : memoized (h ++ [(i, a)]) = h.memoized := by
  simp [memoized, ha]

theorem calls_append_call (x : Resolved γ) : calls (h ++ [(i, .call x)]) = h.calls ++ [(i, x)] := by
  simp [calls, Action.outcome?]

theorem callsOf_append_call (x : Resolved γ) : callsOf (h ++ [(i, .call x)]) i = h.callsOf i ++ [x] := by
  simp [callsOf, calls_append_call]

theorem callsOf_append_call_of_ne (x : Resolved γ) (hj : j ≠ i) : callsOf (h ++ [(i, .call x)]) j = h.callsOf j := by
  simp [callsOf, calls_append_call, hj.symm]

theorem memoized_append_memoize (v : Value γ) : memoized (h ++ [(i, .memoize v)]) = h.memoized ++ [(i, v)] := by
  simp [memoized, Action.memoized?]

theorem mem_callsOf {x : Resolved γ} : x ∈ h.callsOf i ↔ (i, x) ∈ h.calls := by
  simp [callsOf]

end History

/-! ### A thread alone -/

variable {closures : Closures γ σ} {r : Registry} {key : String} {s s' s₁ : Store γ σ} {f : Function γ} {a : Resolved γ}

/-- Nothing but the steps of the thread leads from here to there. -/
inductive Path (closures : Closures γ σ) (r : Registry) (key : String) :
    Store γ σ → Point γ → Store γ σ → Point γ → Prop
  | refl (s : Store γ σ) (p : Point γ) : Path closures r key s p s p
  | head {s s₁ s₂ : Store γ σ} {p p₁ p₂ : Point γ} {a : Action γ} (moves : Moves closures r key s p a s₁ p₁)
    (path : Path closures r key s₁ p₁ s₂ p₂) : Path closures r key s p s₂ p₂

namespace Path

theorem done_iff {b : Resolved γ} : Path closures r key s (.done a) s' (.done b) ↔ s = s' ∧ a = b := by
  constructor
  · intro h
    cases h with
    | refl => exact ⟨rfl, rfl⟩
    | head moves => cases moves
  · rintro ⟨rfl, rfl⟩
    exact .refl _ _

theorem releasing_iff {b : Resolved γ} : Path closures r key s (.releasing a) s' (.done b) ↔ s = s' ∧ a = b := by
  constructor
  · intro h
    cases h with
    | head moves path =>
      cases moves
      exact done_iff.1 path
  · rintro ⟨rfl, rfl⟩
    exact .head (.release _ _) (.refl _ _)

theorem memoizing_iff {v : Value γ} : Path closures r key s (.memoizing f v) s' (.done a) ↔
    (∃ ms, Run.memoize r key f v s = some ((), s', ms)) ∧ a = .ok v := by
  constructor
  · intro h
    cases h with
    | head moves path =>
      cases moves with
      | memoize memoize =>
        obtain ⟨rfl, rfl⟩ := releasing_iff.1 path
        exact ⟨⟨_, memoize⟩, rfl⟩
  · rintro ⟨⟨ms, h⟩, rfl⟩
    exact .head (.memoize h) (releasing_iff.2 ⟨rfl, rfl⟩)

theorem resolving_iff {b : Binding γ} {locked : Bool} : Path closures r key s (.resolving b locked) s' (.done a) ↔
    ∃ ms, Ends closures (resolveBinding closures · r key b) s a s' ms := by
  constructor
  · intro h
    cases h with
    | head moves path =>
      cases moves with
      | resolve _ resolve =>
        cases locked with
        | false =>
          obtain ⟨rfl, rfl⟩ := done_iff.1 path
          exact ⟨_, resolve⟩
        | true =>
          obtain ⟨rfl, rfl⟩ := releasing_iff.1 path
          exact ⟨_, resolve⟩
  · rintro ⟨ms, h⟩
    refine .head (.resolve locked h) ?_
    cases locked with
    | false => exact done_iff.2 ⟨rfl, rfl⟩
    | true => exact releasing_iff.2 ⟨rfl, rfl⟩

theorem inheriting_iff : Path closures r key s .inheriting s' (.done a) ↔
    ∃ x ms, Ends closures (searchParents · key (s.parents r).reverse) s x s' ms ∧
      a = x.getD (.error (unregisteredIn s' r key)) := by
  constructor
  · intro h
    cases h with
    | head moves path =>
      cases moves with
      | inherit inherit =>
        obtain ⟨rfl, rfl⟩ := done_iff.1 path
        exact ⟨_, _, inherit, rfl⟩
  · rintro ⟨x, ms, h, rfl⟩
    exact .head (.inherit h) (.refl _ _)

/-- To call a cached provider and to memoize its value is to provide the key once. -/
theorem calling_iff : Path closures r key s (.calling f true) s' (.done a) ↔
    ∃ ms, Ends closures (resolveBinding closures · r key (.provider f true)) s a s' ms := by
  constructor
  · intro h
    cases h with
    | head moves path =>
      cases moves with
      | @call _ _ b ms _ hcall =>
        obtain ⟨n, hcall⟩ := hcall
        cases b with
        | error e =>
          obtain ⟨rfl, rfl⟩ := releasing_iff.1 path
          exact ⟨_, n, provideOnce_eq_some.2 (.inl ⟨e, ms, hcall, rfl, rfl⟩)⟩
        | ok v =>
          obtain ⟨⟨ms', hmemoize⟩, rfl⟩ := memoizing_iff.1 path
          exact ⟨_, n, provideOnce_eq_some.2 (.inr ⟨v, _, ms, ms', hcall, hmemoize, rfl, rfl⟩)⟩
  · rintro ⟨ms, n, h⟩
    rcases provideOnce_eq_some.1 h with ⟨e, ms', hcall, rfl, rfl⟩ | ⟨v, s₁, ms₁, ms₂, hcall, hmemoize, rfl, rfl⟩
    · exact .head (.call true ⟨n, hcall⟩) (releasing_iff.2 ⟨rfl, rfl⟩)
    · exact .head (.call true ⟨n, hcall⟩) (memoizing_iff.2 ⟨⟨ms₂, hmemoize⟩, rfl⟩)

/-- A thread that is alone finds under the lock the provider that it has read. -/
theorem locking_iff (hb : s.binding? r key = some (.provider f true)) :
    Path closures r key s (.locking f) s' (.done a) ↔
      ∃ ms, Ends closures (resolveBinding closures · r key (.provider f true)) s a s' ms := by
  have hreread : afterRereading f (s.binding? r key) = .calling f true := by
    rw [hb, afterRereading_self]
  rw [← calling_iff]
  constructor
  · intro h
    cases h with
    | head moves path =>
      cases moves
      cases path with
      | head moves path =>
        cases moves
        rwa [hreread] at path
  · intro h
    rw [← hreread] at h
    exact .head (.lock s f) (.head (.reread s f) h)

theorem reading_iff : Path closures r key s .reading s' (.done a) ↔
    Path closures r key s (afterReading (s.binding? r key)) s' (.done a) := by
  constructor
  · intro h
    cases h with
    | head moves path =>
      cases moves
      exact path
  · exact .head (.read s)

end Path

/-- A thread that is alone comes to what the binding of the key gives. -/
theorem path_iff_of_bound {b : Binding γ} (hb : s.binding? r key = some b) :
    Path closures r key s .reading s' (.done a) ↔
      ∃ ms, Ends closures (resolveBinding closures · r key b) s a s' ms := by
  rw [Path.reading_iff, hb]
  cases b with
  | constant | singleton | transient => exact Path.resolving_iff
  | provider f cached =>
    cases cached with
    | false => exact Path.resolving_iff
    | true => exact Path.locking_iff hb

/-- A thread that is alone comes to what the resolution of the key comes to. -/
theorem path_iff_resolve :
    Path closures r key s .reading s' (.done a) ↔ ∃ ms, Ends closures (·.resolve r key) s a s' ms := by
  constructor
  · intro h
    cases hb : s.binding? r key with
    | some b =>
      obtain ⟨ms, n, h⟩ := (path_iff_of_bound hb).1 h
      exact ⟨_, resolves_iff.1 (.key (.bound hb (resolves_iff.2 ⟨n, h⟩)))⟩
    | none =>
      rw [Path.reading_iff, hb] at h
      obtain ⟨x, ms, hparents, rfl⟩ := Path.inheriting_iff.1 h
      exact ⟨_, resolves_iff.1 (.key (.inherited hb (resolves_iff.2 hparents)))⟩
  · rintro ⟨ms, h⟩
    have hkey : Resolves closures (.meet r (.key key)) s a s' ms := resolves_iff.2 h
    cases hkey with
    | key search =>
      cases search with
      | bound hb attempt => exact (path_iff_of_bound hb).2 ⟨_, attempt.ends⟩
      | inherited hb parents =>
        rw [Path.reading_iff, hb]
        exact Path.inheriting_iff.2 ⟨_, _, parents.ends, rfl⟩

end Threads

end Injection
