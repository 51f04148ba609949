import Injection.Binding
import Injection.Table

/-!
# The store

A registry holds bindings and an ordered list of parents.  Registries are shared, so what they hold is kept in a
store, under their handles; a registry without an entry is empty.

The store also holds what closures remember between calls and the next identity to give out.
-/

namespace Injection

structure Contents (γ : Type) where
  bindings : Table String (Binding γ)
  /-- In the order in which they were added. -/
  parents : List Registry

structure Store (γ σ : Type) where
  registries : Table Registry (Contents γ)
  /-- Every identity given out so far is smaller. -/
  fresh : Nat
  /-- What closures remember. -/
  memory : σ

namespace Store

variable {γ σ : Type}

def empty (memory : σ) : Store γ σ :=
  ⟨.empty, 0, memory⟩

def contents (s : Store γ σ) (r : Registry) : Contents γ :=
  (s.registries.find? r).getD ⟨.empty, []⟩

def parents (s : Store γ σ) (r : Registry) : List Registry :=
  (s.contents r).parents

/-- The binding of a key in the registry itself; its parents are not consulted. -/
def binding? (s : Store γ σ) (r : Registry) (key : String) : Option (Binding γ) :=
  (s.contents r).bindings.find? key

/-! ### Changes -/

def modify (s : Store γ σ) (r : Registry) (f : Contents γ → Contents γ) : Store γ σ :=
  { s with registries := s.registries.insert r (f (s.contents r)) }

def bind (s : Store γ σ) (r : Registry) (key : String) (b : Binding γ) : Store γ σ :=
  s.modify r fun g => { g with bindings := g.bindings.insert key b }

def unbind (s : Store γ σ) (r : Registry) (key : String) : Store γ σ :=
  s.modify r fun g => { g with bindings := g.bindings.erase key }

def addParent (s : Store γ σ) (r parent : Registry) : Store γ σ :=
  s.modify r fun g => { g with parents := g.parents ++ [parent] }

/-- The store once the next identity has been given out. -/
def skip (s : Store γ σ) : Store γ σ :=
  { s with fresh := s.fresh + 1 }

/-! ### What a change leaves -/

theorem contents_modify (s : Store γ σ) (r q : Registry) (f : Contents γ → Contents γ) :
    (s.modify r f).contents q = if q = r then f (s.contents r) else s.contents q := by
  unfold contents modify
  rw [Table.find?_insert]
  split <;> rfl

theorem binding?_bind (s : Store γ σ) (r q : Registry) (key k : String) (b : Binding γ) :
    (s.bind r key b).binding? q k = if q = r ∧ k = key then some b else s.binding? q k := by
  unfold binding? bind
  rw [contents_modify]
  by_cases hq : q = r
  · subst hq
    simp [Table.find?_insert]
  · simp [hq]

theorem binding?_unbind (s : Store γ σ) (r q : Registry) (key k : String) :
    (s.unbind r key).binding? q k = if q = r ∧ k = key then none else s.binding? q k := by
  unfold binding? unbind
  rw [contents_modify]
  by_cases hq : q = r
  · subst hq
    simp [Table.find?_erase]
  · simp [hq]

@[simp] theorem binding?_addParent (s : Store γ σ) (r p q : Registry) (k : String) :
    (s.addParent r p).binding? q k = s.binding? q k := by
  unfold binding? addParent
  rw [contents_modify]
  split <;> simp_all

@[simp] theorem parents_bind (s : Store γ σ) (r q : Registry) (key : String) (b : Binding γ) :
    (s.bind r key b).parents q = s.parents q := by
  unfold parents bind
  rw [contents_modify]
  split <;> simp_all

@[simp] theorem parents_unbind (s : Store γ σ) (r q : Registry) (key : String) :
    (s.unbind r key).parents q = s.parents q := by
  unfold parents unbind
  rw [contents_modify]
  split <;> simp_all

theorem parents_addParent (s : Store γ σ) (r p q : Registry) :
    (s.addParent r p).parents q = if q = r then s.parents r ++ [p] else s.parents q := by
  unfold parents addParent
  rw [contents_modify]
  split <;> rfl

@[simp] theorem binding?_skip (s : Store γ σ) (r : Registry) (key : String) :
    s.skip.binding? r key = s.binding? r key := rfl

@[simp] theorem parents_skip (s : Store γ σ) (r : Registry) : s.skip.parents r = s.parents r := rfl

end Store

end Injection
