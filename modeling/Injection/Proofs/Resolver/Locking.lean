import Injection.Proofs.Resolver.During
import Injection.Proofs.Resolver.Visiting

/-!
# Locks are taken upwards

A cached provider runs under the lock of the registry that binds it.  What it injects is looked up in that registry
and, where that does not bind it, in those it inherits from, so while the lock is held others are taken in the registry
itself and above it only.  Every attempt releases what it has taken, be it that it fails, so a parent that is given up
leaves no lock to the next one.

`Activity.Does.within` tells this of one step into an activity: whatever is held there, the lookup has not left the
registries above it.  `Request.locks_upwards` tells it of every cached provider that starts in the course of a request,
also of one that never ends.
-/

namespace Injection

open Run Relation

variable {γ σ : Type}

/-! ### Locks that are held -/

/-- What the mark adds to the number of times that the registry's lock is held. -/
def Mark.locks (p : Registry) : Mark γ → Int
  | .locked q => if p = q then 1 else 0
  | .unlocked q => if p = q then -1 else 0
  | _ => 0

namespace Trace

/-- How many times the registry's lock is taken in the trace and not released in it. -/
def openLocks (p : Registry) : Trace γ → Int
  | [] => 0
  | m :: ms => m.locks p + openLocks p ms

/-- The registry's lock is still held after the trace. -/
def Holds (ms : Trace γ) (p : Registry) : Prop :=
  0 < ms.openLocks p

variable (p : Registry)

@[simp] theorem openLocks_nil : openLocks p ([] : Trace γ) = 0 := rfl

@[simp] theorem openLocks_cons (m : Mark γ) (ms : Trace γ) : openLocks p (m :: ms) = m.locks p + openLocks p ms := rfl

@[simp] theorem openLocks_append (ms ms' : Trace γ) : openLocks p (ms ++ ms') = openLocks p ms + openLocks p ms' := by
  induction ms with
  | nil => simp
  | cons m ms ih => rw [List.cons_append, openLocks_cons, openLocks_cons, ih, Int.add_assoc]

end Trace

/-- The registry's lock is released as often as it is taken. -/
def Effect.releasing (p : Registry) (_ _ : Store γ σ) (ms : Trace γ) : Prop :=
  ms.openLocks p = 0

theorem Effect.releasing_law (p : Registry) : Effect.ActivityLaw (Effect.releasing (γ := γ) (σ := σ) p) where
  refl _ := rfl
  trans h h' := by rw [Effect.releasing, Trace.openLocks_append, h, h', Int.zero_add]
  event _ _ _ := rfl
  skip _ := rfl
  remember _ _ := rfl
  bind _ _ _ _ := rfl
  unbind _ _ _ := rfl
  extend _ := rfl
  around hm h := by
    unfold Effect.releasing at h ⊢
    cases hm with
    | lock q =>
      by_cases hq : p = q
      · simp [Mark.locks, ← hq, h]
      · simp [Mark.locks, hq, h]
    | span | closure | threads => simp [Mark.locks, h]
  calling c failure h := by
    unfold Effect.releasing at h ⊢
    cases failure <;> simp [Mark.locks, Trace.report, h]

theorem Effect.releasing_searchLaw (p r : Registry) (key : String) :
    Effect.SearchLaw (Effect.releasing (γ := γ) (σ := σ) p) r key where
  searching _ := rfl
  searched _ _ := rfl
  provided _ _ _ := rfl
  memoized _ _ _ := rfl

namespace Resolver

variable {closures : Closures γ σ} {s s' s₁ s₂ : Store γ σ} {ms : Trace γ} {g g' : Goal γ}

/-- Whatever a goal comes to, it releases the locks that it has taken. -/
theorem Resolves.openLocks {a : g.Answer} (h : Resolves closures g s a s' ms) (p : Registry) : ms.openLocks p = 0 :=
  h.keeps (Effect.releasing_law p) (Effect.releasing_searchLaw p)

end Resolver

open Resolver

/-! ### From goal to goal -/

namespace Activity

variable {closures : Closures γ σ} {s s₁ s₂ : Store γ σ} {ms : Trace γ} {g g' : Goal γ} {x y : Activity γ σ}

/-- Where closures are detached, the store settles on the way from a goal to those in it. -/
theorem Does.settles (hclosures : closures.Detached) (h : (goal g).Does closures s ms (goal g') s₁) : s.Settles s₁ := by
  cases h with
  | failed search => exact search.settles_of_detached hclosures
  | absent search => exact search.settles_of_detached hclosures
  | parameters first => exact first.settles_of_detached hclosures
  | _ => exact .refl _

/-- While a lock is held, nothing is looked up but in the registries above it: if that is so for the goal, with `n`
locks of the registry held, then it is so for each goal in it, with those that are held there. -/
theorem Does.within {p : Registry} {n : Int} (h : (goal g).Does closures s ms (goal g') s₁)
    (hparents : ∀ r, s.parents r = s₂.parents r) (hn : 0 ≤ n) (hg : 0 < n → g.Within (s₂.Chain p)) :
    0 ≤ n + ms.openLocks p ∧ (0 < n + ms.openLocks p → g'.Within (s₂.Chain p)) := by
  -- apart from providers, what happens before the inner goal leaves as many locks as before
  have same (hms : ms.openLocks p = 0) (hg' : g.Within (s₂.Chain p) → g'.Within (s₂.Chain p)) :
      0 ≤ n + ms.openLocks p ∧ (0 < n + ms.openLocks p → g'.Within (s₂.Chain p)) := by
    rw [hms, Int.add_zero]
    exact ⟨hn, fun hpos => hg' (hg hpos)⟩
  cases h with
  | search => exact same rfl id
  | inject r receiver c => exact same rfl id
  | bound => exact same rfl id
  | inherited =>
    refine same rfl fun hr q hq => ?_
    rw [hparents] at hq
    exact ReflTransGen.tail hr (List.mem_reverse.1 hq)
  | parent => exact same rfl fun hps => hps _ List.mem_cons_self
  | failed search =>
    exact same (by simp [search.openLocks, Mark.locks]) fun hps q hq => hps q (List.mem_cons_of_mem _ hq)
  | absent search => exact same (search.openLocks p) fun hps q hq => hps q (List.mem_cons_of_mem _ hq)
  | transient => exact same rfl fun hr j _ => hr
  | provider r key f cached =>
    cases cached with
    | false => exact same rfl fun hr j _ => hr
    | true =>
      by_cases hp : p = r
      · subst hp
        have hms : Trace.openLocks p [(.locked p : Mark γ)] = 1 := by simp [Mark.locks]
        exact ⟨by simp only [if_true, hms]; omega, fun _ j _ => .refl⟩
      · exact same (by simp [Mark.locks, hp]) fun hr j _ => hr
  | parameter => exact same rfl fun hr => hr _ List.mem_cons_self
  | parameters first => exact same (first.openLocks p) fun hr j hj => hr j (List.mem_cons_of_mem _ hj)

/-- No registry takes part in the activity. -/
def IsDetached : Activity γ σ → Prop
  | request q => q.IsDetached
  | goal _ => False
  | run _ _ => True

end Activity

theorem Request.IsDetached.demand?_eq_none {q : Request γ σ} (h : q.IsDetached) : q.demand? = none := by
  cases q <;> first | rfl | exact h.elim

theorem Program.Asks.isDetached {α : Type} {closures : Closures γ σ} {p : Program γ σ α} {s s₁ : Store γ σ}
    {ms : Trace γ} {q : Request γ σ} (h : p.Asks closures s ms q s₁) (hp : p.IsDetached) : q.IsDetached := by
  induction h with
  | first => exact hp.1
  | later _ _ ih => exact ih (hp.2 _)

namespace Activity

variable {closures : Closures γ σ} {s s₁ s₂ : Store γ σ} {pre : Trace γ} {g g' : Goal γ} {x y : Activity γ σ}

/-- A detached closure gets no registry to take part in anything. -/
theorem During.isDetached (hclosures : closures.Detached) (h : x.During closures s pre y s₁) (hx : x.IsDetached) :
    y.IsDetached := by
  induction h with
  | self => exact hx
  | inside does _ ih =>
    refine ih ?_
    cases does with
    | function asks => exact asks.isDetached (hclosures.call _ _)
    | constructible asks => exact asks.isDetached (hclosures.construct _ _)
    | demand hq =>
      rw [Request.IsDetached.demand?_eq_none hx] at hq
      cases hq
    | call | construct => trivial
    | _ => exact hx.elim

/-- What holds of one step into a goal holds of all goals that are pursued during it. -/
theorem During.within (hclosures : closures.Detached) {p : Registry} {n : Int}
    (h : (goal g).During closures s pre (goal g') s₁) (hparents : ∀ r, s.parents r = s₂.parents r) (hn : 0 ≤ n)
    (hg : 0 < n → g.Within (s₂.Chain p)) (hpos : 0 < n + pre.openLocks p) : g'.Within (s₂.Chain p) := by
  generalize hx : goal g = x at h
  generalize hy : goal g' = y at h
  induction h generalizing g n with
  | self =>
    cases hx.trans hy.symm
    exact hg (by simpa using hpos)
  | @inside x y z s s₁ _ ms ms' does during ih =>
    subst hx hy
    cases y with
    | request q => cases does
    | run c a => exact (during.isDetached hclosures trivial).elim
    | goal g₁ =>
      obtain ⟨hn₁, hg₁⟩ := does.within hparents hn hg
      have hparents₁ (r : Registry) : s₁.parents r = s₂.parents r :=
        ((does.settles hclosures).parents r).trans (hparents r)
      refine ih hparents₁ hn₁ hg₁ ?_ rfl rfl
      rwa [Trace.openLocks_append, ← Int.add_assoc] at hpos

end Activity

/-- When a cached provider starts in the course of a request, the locks that are still held are those of registries that
inherit from the one that binds it, or its own. -/
theorem Request.locks_upwards {closures : Closures γ σ} (hclosures : closures.Detached) {s s₁ : Store γ σ}
    {pre : Trace γ} {q : Request γ σ} {r p p' : Registry} {d : Demand γ} {key : String} {f : Function γ}
    (hq : q.demand? = some (r, d))
    (h : (Activity.request q).During closures s pre (.goal (.attempt p key (.provider f true))) s₁)
    (hheld : pre.Holds p') : ReflTransGen s.IsParent p' p := by
  cases h with
  | inside does during =>
    cases does with
    | demand hq' =>
      refine during.within (n := 0) hclosures (fun _ => rfl) (Int.le_refl 0) (fun h => absurd h (by omega)) ?_
      simpa [Trace.Holds, Mark.locks] using hheld
    | call | construct | thread => cases hq

end Injection
