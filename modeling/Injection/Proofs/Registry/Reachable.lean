import Injection.Proofs.Registry.Acyclic
import Injection.Proofs.Resolver.Effect
import Injection.Resolver.Bound

/-!
# The stores of runs

A store changes step by step: an identity is given out, closures remember something else, a key is bound or unbound,
a registry gets a parent that closes no cycle.  The stores that such steps lead to from an empty one are exactly
those in which programs end (`reachable_iff`); they are also those in the middle of a run, since each part of a run
is made of such steps (`Resolver.level_steps`).

Delegation is acyclic in all of them (`Reachable.acyclic`).
-/

namespace Injection

open Relation

variable {γ σ α : Type}

namespace Store

/-- One change of a store. -/
inductive Step : Store γ σ → Store γ σ → Prop
  | given (s : Store γ σ) : Step s s.skip
  | remembered (s : Store γ σ) (memory : σ) : Step s { s with memory }
  | bound (s : Store γ σ) (r : Registry) (key : String) (b : Binding γ) : Step s (s.bind r key b)
  | unbound (s : Store γ σ) (r : Registry) (key : String) : Step s (s.unbind r key)
  | extended {s : Store γ σ} {r parent : Registry} (h : s.closesCycle r parent = false) :
    Step s (s.addParent r parent)

/-- The store is one of those that changes lead to from an empty one. -/
def Reachable (s : Store γ σ) : Prop :=
  ∃ memory, ReflTransGen Step (empty memory) s

theorem acyclic_empty (memory : σ) : (empty memory : Store γ σ).Acyclic := by
  intro r hr
  obtain ⟨p, hp, -⟩ := TransGen.head'_iff.1 hr
  cases hp

theorem Acyclic.step {s s' : Store γ σ} (hs : s.Acyclic) (h : Step s s') : s'.Acyclic := by
  cases h with
  | given => exact hs.congr fun _ => rfl
  | remembered => exact hs.congr fun _ => rfl
  | bound r key b => exact hs.congr fun q => parents_bind _ _ _ _ _
  | unbound r key => exact hs.congr fun q => parents_unbind _ _ _ _
  | extended h => exact hs.addParent h

/-- No registry ever comes to inherit from itself. -/
theorem Reachable.acyclic {s : Store γ σ} (h : s.Reachable) : s.Acyclic := by
  obtain ⟨memory, h⟩ := h
  induction h with
  | refl => exact acyclic_empty memory
  | tail _ h ih => exact ih.step h

end Store

/-! ### Runs are made of steps -/

/-- The store left comes from the first one by changes. -/
def Effect.steps (s s' : Store γ σ) (_ : Trace γ) : Prop :=
  ReflTransGen Store.Step s s'

theorem Effect.steps_law : Effect.Law (Effect.steps (γ := γ) (σ := σ)) where
  refl _ := .refl
  trans h h' := ReflTransGen.trans h h'
  plain _ _ _ := .refl
  skip s := .single (.given s)
  remember s memory := .single (.remembered s memory)
  bind s r key b := .single (.bound s r key b)
  unbind s r key := .single (.unbound s r key)
  extend h := .single (.extended h)

theorem Effect.steps_searchLaw (r : Registry) (key : String) :
    Effect.SearchLaw (Effect.steps (γ := γ) (σ := σ)) r key where
  searching _ := .refl
  searched _ _ := .refl
  provided _ _ _ := .refl
  memoized _ _ v := .single (.bound _ r key (.constant v))

/-- Each part of a run is made of steps. -/
theorem Resolver.level_steps (closures : Closures γ σ) (n : Nat) : (level closures n).Keep Effect.steps :=
  Effect.steps_law.level_keeps_of_searchLaw Effect.steps_searchLaw closures n

theorem Store.Reachable.steps {s s' : Store γ σ} (hs : s.Reachable) {ms : Trace γ} (h : Effect.steps s s' ms) :
    s'.Reachable := by
  obtain ⟨memory, hs⟩ := hs
  exact ⟨memory, hs.trans h⟩

/-- Any change can be asked for. -/
private theorem exists_request {s s' : Store γ σ} (h : s.Step s') (closures : Closures γ σ) :
    ∃ (q : Request γ σ) (x : q.Answer) (ms : Trace γ),
      (Resolver.level closures 1).perform q s = some (x, s', ms) := by
  cases h with
  | given => exact ⟨.newRegistry "", ⟨s.fresh, ""⟩, [], rfl⟩
  | remembered memory => exact ⟨.writeMemory memory, (), [], rfl⟩
  | bound r key b => exact ⟨.bind r key b, _, _, rfl⟩
  | unbound r key => exact ⟨.unbind r key, _, _, rfl⟩
  | @extended r parent h =>
    exact ⟨.extend r parent, .ok (), _, Run.between_eq_some.2 ⟨_, Run.extend_apply h, rfl⟩⟩

/-- The reachable stores are those in which programs end. -/
theorem Store.reachable_iff (closures : Closures γ σ) (s : Store γ σ) :
    s.Reachable ↔ ∃ (memory : σ) (p : Program γ σ Unit) (n : Nat) (ms : Trace γ),
      p.runWithin closures n (.empty memory) = some ((), s, ms) := by
  constructor
  · rintro ⟨memory, h⟩
    refine ⟨memory, ?_⟩
    induction h with
    | refl => exact ⟨.done (), 1, [], rfl⟩
    | @tail s s' _ h ih =>
      obtain ⟨p, n, ms, hp⟩ := ih
      obtain ⟨q, x, ms', hq⟩ := exists_request h closures
      refine ⟨p >>= fun _ => .ask q fun _ => .done (), max n 1, ms ++ ms', ?_⟩
      have hp := Program.runWithin_mono closures (Nat.le_max_left n 1) p _ _ hp
      have hq := (Program.runWithin_mono closures (Nat.le_max_right n 1) (.ask q fun _ => .done ())) s
        ((), s', ms' ++ []) (Run.bind_eq_some.2 ⟨x, s', ms', (), s', [], hq, rfl, rfl⟩)
      unfold Program.runWithin at hp hq ⊢
      rw [Program.run_bind]
      exact Run.bind_eq_some.2 ⟨(), s, ms, (), s', ms', hp, by simpa using hq, rfl⟩
  · rintro ⟨memory, p, n, ms, h⟩
    exact ⟨memory, Effect.steps_law.program (Resolver.level_steps closures n).perform p h⟩

end Injection
