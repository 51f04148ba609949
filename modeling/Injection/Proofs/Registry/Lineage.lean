import Injection.Proofs.Registry.Reachable

/-!
# The text of a delegation tree

The registries that a registry inherits from form a tree, whose text tells the tree, whatever names hold as long as
they hold no quote (`ancestors_eq_iff`).  A quote ends a name, so separators inside of it do no harm.  Behind the name
an arrow leads to what is above it; what else can follow it, a comma or a closing bracket, does not begin like an arrow.
-/

namespace Injection

open Relation

variable {γ σ : Type}

namespace Lineage

variable {l l' : Lineage} {ls ls' : List Lineage} {x x' : List Char}

/-- No name in the tree holds a quote. -/
inductive QuoteFree : Lineage → Prop
  | node {name : String} {parents : List Lineage} (ofName : '\x22' ∉ name.toList)
    (ofParents : ∀ l ∈ parents, QuoteFree l) : QuoteFree (.node name parents)

/-- The text of the tree, in front of anything but an arrow, is no other tree's and tells what follows it. -/
def Legible (l : Lineage) : Prop :=
  ∀ ⦃l' x x'⦄, l'.QuoteFree → x.head? ≠ some ' ' → x'.head? ≠ some ' ' → l.text ++ x = l'.text ++ x' → l = l' ∧ x = x'

/-! ### Reading back -/

theorem above_cons (l : Lineage) (ls : List Lineage) : above (l :: ls) = " <- [".toList ++ l.text ++ others ls := rfl

theorem name_append_inj {n n' : List Char} (h : '\x22' ∉ n) (h' : '\x22' ∉ n')
    (heq : n ++ '\x22' :: x = n' ++ '\x22' :: x') : n = n' ∧ x = x' := by
  induction n generalizing n' with
  | nil =>
    cases n' with
    | nil => exact ⟨rfl, (List.cons.inj heq).2⟩
    | cons c n' => exact absurd ((List.cons.inj heq).1 ▸ List.mem_cons_self) h'
  | cons c n ih =>
    cases n' with
    | nil => exact absurd ((List.cons.inj heq).1 ▸ List.mem_cons_self) h
    | cons c' n' =>
      obtain ⟨rfl, hrest⟩ := List.cons.inj heq
      obtain ⟨rfl, rfl⟩ := ih (List.not_mem_of_not_mem_cons h) (List.not_mem_of_not_mem_cons h') hrest
      exact ⟨rfl, rfl⟩

theorem head?_others (ls : List Lineage) (x : List Char) : (others ls ++ x).head? ≠ some ' ' := by
  cases ls <;> simp [others]

/-- The closing bracket ends the trees, whatever follows it. -/
theorem others_append_inj (h : ∀ l ∈ ls, l.Legible) (h' : ∀ l ∈ ls', l.QuoteFree)
    (heq : others ls ++ x = others ls' ++ x') : ls = ls' ∧ x = x' := by
  induction ls generalizing ls' with
  | nil =>
    cases ls' with
    | nil => exact ⟨rfl, (List.cons.inj heq).2⟩
    | cons l' ls' => simp [others] at heq
  | cons l ls ih =>
    cases ls' with
    | nil => simp [others] at heq
    | cons l' ls' =>
      simp only [others, List.append_assoc, List.append_cancel_left_eq] at heq
      rw [List.forall_mem_cons] at h h'
      obtain ⟨rfl, hothers⟩ := h.1 h'.1 (head?_others ls x) (head?_others ls' x') heq
      obtain ⟨rfl, rfl⟩ := ih h.2 h'.2 hothers
      exact ⟨rfl, rfl⟩

/-- What is above a name is told from what comes next. -/
theorem above_append_inj (h : ∀ l ∈ ls, l.Legible) (h' : ∀ l ∈ ls', l.QuoteFree) (hx : x.head? ≠ some ' ')
    (hx' : x'.head? ≠ some ' ') (heq : above ls ++ x = above ls' ++ x') : ls = ls' ∧ x = x' := by
  cases ls with
  | nil =>
    cases ls' with
    | nil => exact ⟨rfl, heq⟩
    | cons l' ls' => exact absurd (congrArg List.head? heq) hx
  | cons l ls =>
    cases ls' with
    | nil => exact absurd (congrArg List.head? heq).symm hx'
    | cons l' ls' =>
      simp only [above_cons, List.append_assoc, List.append_cancel_left_eq] at heq
      rw [List.forall_mem_cons] at h h'
      obtain ⟨rfl, hothers⟩ := h.1 h'.1 (head?_others ls x) (head?_others ls' x') heq
      obtain ⟨rfl, rfl⟩ := others_append_inj h.2 h'.2 hothers
      exact ⟨rfl, rfl⟩

theorem QuoteFree.legible (h : l.QuoteFree) : l.Legible := by
  induction h with
  | @node name parents hname _ ih =>
    rintro _ x x' ⟨hname', hparents'⟩ hx hx' heq
    simp only [text, List.cons_append, List.append_assoc, List.cons.injEq, true_and] at heq
    obtain ⟨hnames, habove⟩ := name_append_inj hname hname' heq
    obtain rfl := String.toList_injective hnames
    obtain ⟨rfl, rfl⟩ := above_append_inj ih hparents' hx hx' habove
    exact ⟨rfl, rfl⟩

/-- The text of several trees is no other trees' text. -/
theorem listText_inj (h : ∀ l ∈ ls, l.QuoteFree) (h' : ∀ l ∈ ls', l.QuoteFree) (heq : listText ls = listText ls') :
    ls = ls' := by
  cases ls with
  | nil =>
    cases ls' with
    | nil => rfl
    | cons l' ls' => simp [listText] at heq
  | cons l ls =>
    cases ls' with
    | nil => simp [listText] at heq
    | cons l' ls' =>
      have hothers : others (l :: ls) ++ [] = others (l' :: ls') ++ [] := by
        simpa [listText, others] using heq
      exact (others_append_inj (fun l hl => (h l hl).legible) h' hothers).1

theorem listText_eq_nil_iff : listText ls = [] ↔ ls = [] := by
  cases ls <;> simp [listText]

end Lineage

/-! ### The tree of a registry -/

namespace Store

variable {s : Store γ σ} {r r₁ r₂ : Registry}

/-- No registry that this one inherits from has a quote in its name. -/
def QuoteFreeAbove (s : Store γ σ) (r : Registry) : Prop :=
  ∀ p, TransGen s.IsParent r p → '\x22' ∉ p.name.toList

/-- Above a registry are its parents, each with what is above it. -/
theorem Acyclic.lineages_parents (hs : s.Acyclic) (r : Registry) :
    s.lineages r = (s.parents r).map fun p => .node p.name (s.lineages p) := by
  have hone : s.lineagesWithin (s.registries.size + 1) r = s.lineages r :=
    lineagesWithin_eq (hs.height r) (Nat.le_succ _)
  exact hone.symm

theorem QuoteFreeAbove.lineagesWithin (h : s.QuoteFreeAbove r) (n : Nat) :
    ∀ l ∈ s.lineagesWithin n r, l.QuoteFree := by
  induction n generalizing r with
  | zero => exact fun _ hl => absurd hl List.not_mem_nil
  | succ n ih =>
    intro l hl
    obtain ⟨p, hp, rfl⟩ := List.mem_map.1 hl
    exact .node (h p (.single hp)) (ih fun q hq => h q (.head hp hq))

end Store

/-- The text of the registries that a registry inherits from tells their tree, and is empty exactly if there are
none. -/
theorem ancestors_eq_iff {s : Store γ σ} (hs : s.Reachable) {r₁ r₂ : Registry} (h₁ : s.QuoteFreeAbove r₁)
    (h₂ : s.QuoteFreeAbove r₂) :
    (s.ancestors r₁ = s.ancestors r₂ ↔ s.lineages r₁ = s.lineages r₂) ∧
      ∀ r, s.lineages r = ((s.parents r).map fun p => .node p.name (s.lineages p)) ∧
        (s.ancestors r = "" ↔ s.parents r = []) := by
  refine ⟨⟨fun h => ?_, fun h => ?_⟩, fun r => ⟨hs.acyclic.lineages_parents r, ?_⟩⟩
  · exact Lineage.listText_inj (h₁.lineagesWithin _) (h₂.lineagesWithin _) (String.ofList_injective h)
  · rw [Store.ancestors, h, Store.ancestors]
  · rw [Store.ancestors, String.ofList_eq_empty_iff, Lineage.listText_eq_nil_iff, hs.acyclic.lineages_parents r,
      List.map_eq_nil_iff]

/-! ### A name that reads like a tree -/

namespace Separators

def top : Registry := ⟨0, "top"⟩

def base : Registry := ⟨1, "base"⟩

def odd : Registry := ⟨2, "base <- [top]"⟩

def one : Registry := ⟨3, "one"⟩

def two : Registry := ⟨4, "two"⟩

/-- The one inherits from a registry of the odd name, the other from the base and, through it, from the top. -/
def store : Store Unit Unit :=
  (((Store.empty ()).addParent one odd).addParent base top).addParent two base

theorem reachable_store : store.Reachable :=
  ⟨(), .tail (.tail (.single (.extended (by decide))) (.extended (by decide))) (.extended (by decide))⟩

theorem quoteFreeAbove (r : Registry) : store.QuoteFreeAbove r := by
  have parent_or {s : Store Unit Unit} {r p q x : Registry} (h : x ∈ (s.addParent r p).parents q) :
      x = p ∨ x ∈ s.parents q := by
    rw [Store.parents_addParent] at h
    split at h
    · subst_vars
      exact (List.mem_append.1 h).symm.imp List.mem_singleton.1 id
    · exact .inr h
  intro p hp
  obtain ⟨q, -, hp⟩ := TransGen.tail'_iff.1 hp
  obtain rfl | hp := parent_or hp
  · decide
  obtain rfl | hp := parent_or hp
  · decide
  obtain rfl | hp := parent_or hp
  · decide
  · cases hp

/-- The texts differ, as the trees do. -/
theorem ancestors_eq_iff_separators :
    store.Reachable ∧ store.QuoteFreeAbove one ∧ store.QuoteFreeAbove two ∧
      store.ancestors one ≠ store.ancestors two := by
  have hmain := ancestors_eq_iff reachable_store (quoteFreeAbove one) (quoteFreeAbove two)
  refine ⟨reachable_store, quoteFreeAbove one, quoteFreeAbove two, fun h => ?_⟩
  have htrees : [Lineage.node "base <- [top]" []] = [.node "base" [.node "top" []]] := hmain.1.1 h
  simp only [List.cons.injEq, Lineage.node.injEq, reduceCtorEq, and_false, false_and] at htrees

end Separators

end Injection
