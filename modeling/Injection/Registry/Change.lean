import Injection.Registry.Delegation
import Injection.Run

/-!
# Changes of registries

The runs that make and change registries, functions and values.  Each change of what a registry holds leaves a mark,
besides the event that it may log.
-/

namespace Injection

namespace Run

variable {γ σ : Type}

/-! ### New identities -/

/-- A new instance. -/
def newValue (data : Data γ (Value γ)) : Run γ σ (Value γ) := do
  let id ← read Store.fresh
  change Store.skip
  return ⟨id, data⟩

def newRegistry (name : String) : Run γ σ Registry := do
  let id ← read Store.fresh
  change Store.skip
  return ⟨id, name⟩

def newFunction (source : String) (body : γ) : Run γ σ (Function γ) := do
  let id ← read Store.fresh
  change Store.skip
  return .new id source body

/-! ### Bindings and parents -/

/-- Binds a key and gives the binding it replaces. -/
def bindKey (r : Registry) (key : String) (b : Binding γ) : Run γ σ (Option (Binding γ)) := do
  let old ← read (Store.binding? · r key)
  log (.bound r.name key b.kind)
  change (Store.bind · r key b)
  mark (.changed (.bound r key b))
  return old

/-- Removes the binding of a key and gives it. -/
def unbindKey (r : Registry) (key : String) : Run γ σ (Option (Binding γ)) := do
  let old ← read (Store.binding? · r key)
  change (Store.unbind · r key)
  mark (.changed (.unbound r key))
  return old

/-- Adds a parent unless the registry would come to inherit from itself. -/
def extend (r parent : Registry) : Run γ σ (Except ExtendError Unit) := do
  if ← read (Store.closesCycle · r parent) then
    let e := ExtendError.cyclicDelegation r.name parent.name
    log (.reported e.message)
    return .error e
  else
    change (Store.addParent · r parent)
    mark (.changed (.extended r parent))
    log (.extended r.name parent.name)
    return .ok ()

/-- Replaces a provider by the value it gave, unless the key has been bound to something else since. -/
def memoize (r : Registry) (key : String) (f : Function γ) (v : Value γ) : Run γ σ Unit := do
  match ← read (Store.binding? · r key) with
  | some (.provider g _) =>
    -- bound anew to the same function, it still counts as the provider that was run
    if g.same f then
      change (Store.bind · r key (.constant v))
      mark (.changed (.memoized r key v))
      log .memoized
  | _ => return ()

/-! ### What each of them gives -/

theorem newValue_apply (data : Data γ (Value γ)) (s : Store γ σ) :
    newValue data s = some (⟨s.fresh, data⟩, s.skip, []) := rfl

theorem bindKey_apply (r : Registry) (key : String) (b : Binding γ) (s : Store γ σ) :
    bindKey r key b s =
      some (s.binding? r key, s.bind r key b, [.logged (.bound r.name key b.kind), .changed (.bound r key b)]) :=
  rfl

theorem unbindKey_apply (r : Registry) (key : String) (s : Store γ σ) :
    unbindKey r key s = some (s.binding? r key, s.unbind r key, [.changed (.unbound r key)]) := rfl

theorem extend_apply_of_closesCycle {s : Store γ σ} {r parent : Registry} (h : s.closesCycle r parent = true) :
    extend r parent s =
      some (.error (.cyclicDelegation r.name parent.name), s,
        [.logged (.reported (ExtendError.cyclicDelegation r.name parent.name).message)]) := by
  rw [extend, bind_apply, read, Option.bind_some, h]
  rfl

theorem extend_apply {s : Store γ σ} {r parent : Registry} (h : s.closesCycle r parent = false) :
    extend r parent s =
      some (.ok (), s.addParent r parent,
        [.changed (.extended r parent), .logged (.extended r.name parent.name)]) := by
  rw [extend, bind_apply, read, Option.bind_some, h]
  rfl

theorem memoize_apply {s : Store γ σ} {r : Registry} {key : String} {f g : Function γ} {cached : Bool}
    (hb : s.binding? r key = some (.provider g cached)) (hg : g.same f = true) (v : Value γ) :
    memoize r key f v s =
      some ((), s.bind r key (.constant v), [.changed (.memoized r key v), .logged .memoized]) := by
  rw [memoize, bind_apply, read, Option.bind_some, hb]
  simp only [hg, if_true]
  rfl

/-- A key that is no longer bound to the provider is left as it is. -/
theorem memoize_apply_of_rebound {s : Store γ σ} {r : Registry} {key : String} {f : Function γ}
    (h : ∀ g cached, s.binding? r key = some (.provider g cached) → g.same f = false) (v : Value γ) :
    memoize r key f v s = some ((), s, []) := by
  rw [memoize, bind_apply, read, Option.bind_some]
  rcases hb : s.binding? r key with _ | (w | w | c | ⟨g, cached⟩)
  · rfl
  · rfl
  · rfl
  · rfl
  · simp only [h g cached hb]
    rfl

/-- Memoizing puts a value in the place of a provider that counts as the one run, or does nothing. -/
theorem memoize_cases (r : Registry) (key : String) (f : Function γ) (v : Value γ) (s : Store γ σ) :
    (∃ g cached, s.binding? r key = some (.provider g cached) ∧ g.same f = true ∧ memoize r key f v s =
      some ((), s.bind r key (.constant v), [.changed (.memoized r key v), .logged .memoized])) ∨
      memoize r key f v s = some ((), s, []) := by
  by_cases hb : ∃ g cached, s.binding? r key = some (.provider g cached) ∧ g.same f = true
  · obtain ⟨g, cached, hb, hg⟩ := hb
    exact .inl ⟨g, cached, hb, hg, memoize_apply hb hg v⟩
  · refine .inr (memoize_apply_of_rebound (fun g cached hg => ?_) v)
    simpa using fun hs => hb ⟨g, cached, hg, hs⟩

end Run

end Injection
