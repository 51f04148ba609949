import Injection.Proofs.Registry.Reachable
import Injection.Proofs.Resolver.ProvidedOnce

/-!
# Rebinding during a lookup

A cached provider may bind or unbind its own key while it runs.  The value that it gives is then dropped: when the
lookup returns, the key is bound as the last of these changes left it (`Resolver.search_keeps_rebinding`).

There is one exception.  A registry knows the provider that it ran by the function alone.  A provider of the same
function, bound anew, counts as the one that ran, even if its values are not to be kept, and the value takes its place
(`ReboundToItself.rebinding_replaced`).
-/

namespace Injection

open Run

variable {γ σ α : Type}

/-- What the change leaves the key bound to, if it binds or unbinds it. -/
def Change.leaves? (r : Registry) (key : String) : Change γ → Option (Option (Binding γ))
  | .bound q k b => if r = q ∧ key = k then some (some b) else none
  | .unbound q k => if r = q ∧ key = k then some none else none
  | .memoized _ _ _ => none
  | .extended _ _ => none

theorem Change.bindingAfter_of_leaves? {r : Registry} {key : String} {c : Change γ} {left : Option (Binding γ)}
    (h : c.leaves? r key = some left) (old : Option (Binding γ)) : c.bindingAfter r key old = left := by
  cases c with
  | bound q k b | unbound q k =>
    by_cases hq : r = q ∧ key = k <;> simp_all [leaves?, bindingAfter]
  | memoized | extended => cases h

/-- A lookup of the binding runs the function. -/
def Binding.Provides (f : Function γ) : Binding γ → Prop
  | .provider g _ => g.same f = true
  | _ => False

/-- If only the first mark can begin a search for the key, none begins while another is open. -/
theorem Trace.oneSearchAtATime_cons {r : Registry} {key : String} {m : Mark γ} {ms : Trace γ}
    (h : .searching r key ∉ ms) : Trace.OneSearchAtATime r key (m :: ms) := by
  intro a b hab
  rcases List.cons_eq_append_iff.1 hab with ⟨rfl, -⟩ | ⟨a', rfl, rfl⟩
  · rfl
  · simp at h

/-- What is not in the first part comes after it. -/
private theorem eq_append_of_notMem_left {l l' a b : List α} {m : α} (h : l ++ l' = a ++ m :: b) (hm : m ∉ l) :
    ∃ a', l' = a' ++ m :: b := by
  rcases List.append_eq_append_iff.1 h with ⟨a', rfl, h'⟩ | ⟨c, rfl, h'⟩
  · exact ⟨a', h'⟩
  · rcases List.cons_eq_append_iff.1 h' with ⟨rfl, h''⟩ | ⟨d, rfl, -⟩
    · exact ⟨[], h''⟩
    · simp at hm

/-- What is not in the second part comes before it. -/
private theorem eq_append_of_notMem_right {l l' a b : List α} {m : α} (h : l ++ l' = a ++ m :: b) (hm : m ∉ l') :
    ∃ b', l = a ++ m :: b' ∧ b = b' ++ l' := by
  rcases List.append_eq_append_iff.1 h with ⟨a', rfl, rfl⟩ | ⟨c, rfl, h'⟩
  · simp at hm
  · rcases List.cons_eq_append_iff.1 h' with ⟨rfl, rfl⟩ | ⟨d, rfl, rfl⟩
    · simp at hm
    · exact ⟨d, rfl, rfl⟩

namespace Resolver

variable {closures : Closures γ σ} {r : Registry} {key : String} {f : Function γ} {v : Value γ} {s s' : Store γ σ}
  {ms a b : Trace γ} {c : Change γ} {left : Option (Binding γ)}

/-- Memoizing leaves the binding of its key, unless that is a provider of the function. -/
theorem binding?_memoize (h : memoize r key f v s = some ((), s', ms)) :
    ((∀ b ∈ s.binding? r key, ¬ b.Provides f) → s'.binding? r key = s.binding? r key) ∧
      ((∃ b ∈ s.binding? r key, b.Provides f) → s'.binding? r key = some (.constant v)) := by
  constructor
  · intro hnot
    rcases memoize_eq_some h with ⟨g, cached, hb, hg, -, -⟩ | ⟨rfl, -⟩
    · exact absurd hg (hnot _ hb)
    · rfl
  · rintro ⟨b, hb, hf⟩
    cases b with
    | provider g cached =>
      rw [memoize_apply hb hf] at h
      cases h
      simp [Store.binding?_bind]
    | _ => cases hf

/-- When a lookup returns the value of a cached provider that bound or unbound its own key, the key is bound as the last
of these changes left it, unless that is a provider of the same function again, which the value replaces. -/
theorem search_keeps_rebinding (hb : s.binding? r key = some (.provider f true))
    (h : Ends closures (·.search r key) s (some (.ok v)) s' ms) (ho : ms.OneSearchAtATime r key)
    (hms : ms = a ++ .changed c :: b) (hc : c.leaves? r key = some left) (hlast : b.NeverRebinds r key) :
    ((∀ b' ∈ left, ¬ b'.Provides f) → s'.binding? r key = left) ∧
      ((∃ b' ∈ left, b'.Provides f) → s'.binding? r key = some (.constant v)) := by
  obtain ⟨n, h⟩ := ends_search_iff.1 h
  obtain ⟨x, ms', hx, heq, rfl⟩ := (searchFrom_of_bound hb).1 h
  cases heq
  rcases provideOnce_eq_some.1 hx with ⟨e, ms₁, -, heq, -⟩ | ⟨w, s₁, ms₁, ms₂, hcall, hm, heq, rfl⟩
  · cases heq
  cases heq
  have hsplit : Mark.searching r key :: (.locked r :: (ms₁ ++ .provided r key f v :: ms₂ ++ [.unlocked r]) ++
        [.searched r key (some (.ok v))]) =
      [.searching r key, .locked r] ++ ms₁ ++
        (.provided r key f v :: ms₂ ++ [.unlocked r, .searched r key (some (.ok v))]) := by
    simp
  rw [hsplit] at hms ho
  -- the last change is one of the call, since what the registry does around the call changes no key by request
  have hc₂ : Mark.changed c ∉ ms₂ := by
    intro hmem
    rcases memoize_eq_some hm with ⟨-, -, -, -, -, rfl⟩ | ⟨-, rfl⟩
    · simp only [List.mem_cons, Mark.changed.injEq, reduceCtorEq, List.not_mem_nil, or_false] at hmem
      subst hmem
      cases hc
    · cases hmem
  obtain ⟨b', hms₁, rfl⟩ := eq_append_of_notMem_right hms (by simp [hc₂])
  obtain ⟨a', rfl⟩ := eq_append_of_notMem_left hms₁ (by simp)
  obtain ⟨hidle, hbinding⟩ := call_idle_inside_search hcall ho (by simp [Mark.opens])
  have hb' : Trace.LeavesBinding r key b' :=
    Trace.Idle.leavesBinding (fun m hm => hidle m (by simp [hm])) (Trace.neverRebinds_append.1 hlast).1
  have hleft : s₁.binding? r key = left := by
    rw [hbinding, Trace.bindingAfter_append]
    exact (hb'.bindingAfter _).trans (Change.bindingAfter_of_leaves? hc _)
  rw [← hleft]
  exact binding?_memoize hm

end Resolver

/-! ### A provider that binds its own key -/

namespace ReboundToItself

open Resolver

def only : Registry := ⟨0, "only"⟩

def value : Value Unit := ⟨2, .unit⟩

def provider : Function Unit := ⟨1, "() => 0", ⟨[]⟩, ()⟩

/-- Every function binds the key anew and gives the value. -/
def closures (b : Binding Unit) : Closures Unit Unit where
  call _ _ := .ask (.bind only "k" b) fun _ => .done (.ok value)
  construct _ _ := .done (.error (.custom "closed"))

def before : Store Unit Unit :=
  (Store.empty ()).bind only "k" (.provider provider true)

theorem reachable_before : before.Reachable :=
  ⟨(), .single (.bound ..)⟩

theorem binding?_before : before.binding? only "k" = some (.provider provider true) := by
  simp [before, Store.binding?_bind]

/-- What happens before the function binds the key. -/
def opening (b : Binding Unit) : Trace Unit :=
  [.entered (.invoke "only"), .called (.function provider) ⟨none, []⟩, .logged (.bound "only" "k" b.kind)]

/-- The trace of a lookup that binds the key anew; `ms` is that of memoizing. -/
def lookup (b : Binding Unit) (ms : Trace Unit) : Trace Unit :=
  .searching only "k" :: .locked only :: opening b ++
    .changed (.bound only "k" b) ::
    ([.returned (.function provider) (.ok value), .logged .invoked, .left (.invoke "only"),
      .provided only "k" provider value] ++ ms ++ [.unlocked only, .searched only "k" (some (.ok value))])

theorem ends_search {b : Binding Unit} {s' : Store Unit Unit} {ms : Trace Unit}
    (h : memoize only "k" provider value (before.bind only "k" b) = some ((), s', ms)) :
    Ends (closures b) (·.search only "k") before (some (.ok value)) s' (lookup b ms) := by
  have hcall : call (closures b) (level (closures b) 1) only none provider before =
      some (.ok value, before.bind only "k" b, opening b ++
        [.changed (.bound only "k" b), .returned (.function provider) (.ok value), .logged .invoked,
          .left (.invoke "only")]) := rfl
  have hsearch := (searchFrom_of_bound binding?_before).2
    ⟨_, _, provideOnce_eq_some.2 (.inr ⟨_, _, _, _, hcall, h, rfl, rfl⟩), rfl, rfl⟩
  refine ends_search_iff.2 ⟨1, ?_⟩
  simpa [lookup] using hsearch

theorem oneSearchAtATime_lookup (b : Binding Unit) (ms : Trace Unit) (h : .searching only "k" ∉ ms) :
    (lookup b ms).OneSearchAtATime only "k" :=
  Trace.oneSearchAtATime_cons (by simp [opening, h])

/-- A provider that binds its key to a constant leaves that constant. -/
theorem search_keeps_rebinding_constant :
    before.Reachable ∧ before.binding? only "k" = some (.provider provider true) ∧ ∃ ms : Trace Unit,
      Ends (closures (.constant ⟨3, .unit⟩)) (·.search only "k") before (some (.ok value))
        (before.bind only "k" (.constant ⟨3, .unit⟩)) ms ∧ ms.OneSearchAtATime only "k" ∧
      (before.bind only "k" (.constant ⟨3, .unit⟩)).binding? only "k" = some (.constant ⟨3, .unit⟩) := by
  have hnot : ∀ g cached, (before.bind only "k" (.constant ⟨3, .unit⟩)).binding? only "k" =
      some (.provider g cached) → g.same provider = false := by
    simp [Store.binding?_bind]
  have hends := ends_search (memoize_apply_of_rebound hnot value)
  have hone := oneSearchAtATime_lookup (.constant ⟨3, .unit⟩) [] List.not_mem_nil
  have hleft : Change.leaves? only "k" (.bound only "k" (.constant ⟨3, .unit⟩) : Change Unit) =
      some (some (.constant ⟨3, .unit⟩)) := rfl
  have hmain := search_keeps_rebinding binding?_before hends hone rfl hleft ⟨by simp, by simp⟩
  exact ⟨reachable_before, binding?_before, _, hends, hone, hmain.1 (by simp [Binding.Provides])⟩

/-- A provider that binds its own function to its key again, with values that are not to be kept, loses this binding:
the lookup leaves the constant that it gave. -/
theorem rebinding_replaced :
    before.Reachable ∧ before.binding? only "k" = some (.provider provider true) ∧
      ∃ (ms a b : Trace Unit) (s' : Store Unit Unit),
        Ends (closures (.provider provider false)) (·.search only "k") before (some (.ok value)) s' ms ∧
        ms.OneSearchAtATime only "k" ∧ ms = a ++ .changed (.bound only "k" (.provider provider false)) :: b ∧
        b.NeverRebinds only "k" ∧ s'.binding? only "k" = some (.constant value) ∧
        s'.binding? only "k" ≠ some (.provider provider false) := by
  have hbound : (before.bind only "k" (.provider provider false)).binding? only "k" =
      some (.provider provider false) := by
    simp [Store.binding?_bind]
  have hends := ends_search (memoize_apply hbound rfl value)
  have hone := oneSearchAtATime_lookup (.provider provider false)
    [.changed (.memoized only "k" value), .logged .memoized] (by simp)
  refine ⟨reachable_before, binding?_before, _, _, _, _, hends, hone, rfl, ⟨by simp, by simp⟩, ?_⟩
  simp [Store.binding?_bind]

end ReboundToItself

end Injection
