import Injection.Registry.Store

/-!
# Delegation

A registry delegates to its parents, they to theirs.  No registry comes to delegate to itself, and one without an
entry in the store has no parents, so a chain of parents has at most as many steps as the store has entries, which
bounds the recursions here.

The ancestors of a registry form a tree of names, in which a registry stands once for every way to reach it.  Its
text is written `["b" <- ["a"], "c"]`.
-/

namespace Injection

namespace Store

variable {γ σ : Type}

/-- Whether `target` is reached from `r` by at least one and at most so many steps to a parent. -/
def delegatesWithin (s : Store γ σ) (target : Registry) : Nat → Registry → Bool
  | 0, _ => false
  | n + 1, r => (s.parents r).any fun p => p == target || s.delegatesWithin target n p

/-- Whether `r` inherits from `target`, directly or through others. -/
def delegates (s : Store γ σ) (r target : Registry) : Bool :=
  s.delegatesWithin target s.registries.size r

/-- Whether adding the parent would make a registry inherit from itself. -/
def closesCycle (s : Store γ σ) (r parent : Registry) : Bool :=
  r == parent || s.delegates parent r

end Store

/-- A registry's name with the names that it inherits from. -/
inductive Lineage
  | node (name : String) (parents : List Lineage)

/-- The trees of a registry's parents, in the order in which they were added, so many steps up. -/
def Store.lineagesWithin (s : Store γ σ) : Nat → Registry → List Lineage
  | 0, _ => []
  | n + 1, r => (s.parents r).map fun p => .node p.name (s.lineagesWithin n p)

/-- The trees of a registry's parents. -/
def Store.lineages (s : Store γ σ) (r : Registry) : List Lineage :=
  s.lineagesWithin s.registries.size r

mutual

/-- The text of a tree: its name, followed by the text of the trees above it. -/
def Lineage.text : Lineage → List Char
  | .node name parents => '\x22' :: name.toList ++ '\x22' :: Lineage.above parents

/-- What follows a name: nothing if there is nothing above it. -/
def Lineage.above : List Lineage → List Char
  | [] => []
  | l :: ls => " <- [".toList ++ Lineage.text l ++ Lineage.others ls

/-- The trees after the first one, and the closing bracket. -/
def Lineage.others : List Lineage → List Char
  | [] => [']']
  | l :: ls => ", ".toList ++ Lineage.text l ++ Lineage.others ls

end

/-- The text of several trees, empty if there are none. -/
def Lineage.listText : List Lineage → List Char
  | [] => []
  | l :: ls => '[' :: Lineage.text l ++ Lineage.others ls

/-- The text of the registries that a registry inherits from. -/
def Store.ancestors (s : Store γ σ) (r : Registry) : String :=
  String.ofList (Lineage.listText (s.lineages r))

end Injection
