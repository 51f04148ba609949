import Injection.Registry.Delegation
import Mathlib.Data.List.Chain
import Mathlib.Logic.Relation

/-!
# Delegation without cycles

Where no registry inherits from itself, a chain of parents never repeats a registry, and each registry that has
parents has an entry in the store.  Hence a chain has at most as many steps as there are entries
(`Acyclic.height`), and the bounded recursions over parents give what the unbounded ones would:
`delegates` decides inheritance (`Acyclic.delegates_iff`), and a tree of names does not depend on the bound
(`lineagesWithin_eq`).  Adding a parent that closes no cycle keeps the store acyclic (`Acyclic.addParent`).
-/

namespace Injection

namespace Store

open Relation

variable {γ σ : Type} {s s' : Store γ σ}

/-- `r` delegates to `p` directly. -/
def IsParent (s : Store γ σ) (r p : Registry) : Prop :=
  p ∈ s.parents r

/-- No registry inherits from itself. -/
def Acyclic (s : Store γ σ) : Prop :=
  ∀ r, ¬ TransGen s.IsParent r r

/-- Chains of parents from `r` on have at most `n` steps. -/
def HeightAtMost (s : Store γ σ) (n : Nat) (r : Registry) : Prop :=
  ∀ l : List Registry, List.IsChain s.IsParent (r :: l) → l.length ≤ n

/-! ### The length of chains -/

private theorem mem_keys_of_isParent {r p : Registry} (h : s.IsParent r p) :
    r ∈ s.registries.entries.map Prod.fst := by
  unfold IsParent parents contents Table.find? at h
  cases hf : s.registries.entries.find? (·.1 = r) with
  | none => simp [hf] at h
  | some e =>
    have he : e.1 = r := by simpa using List.find?_some hf
    exact List.mem_map.2 ⟨e, List.mem_of_find?_eq_some hf, he⟩

private theorem dropLast_subset_keys {r : Registry} {l : List Registry} (h : List.IsChain s.IsParent (r :: l)) :
    (r :: l).dropLast ⊆ s.registries.entries.map Prod.fst := by
  induction l generalizing r with
  | nil => simp
  | cons p l ih =>
    rw [List.isChain_cons_cons] at h
    rw [List.dropLast_cons_of_ne_nil (by simp)]
    intro q hq
    rcases List.mem_cons.1 hq with rfl | hq
    · exact mem_keys_of_isParent h.1
    · exact ih h.2 hq

private theorem Acyclic.nodup (h : s.Acyclic) {l : List Registry} (hl : List.IsChain s.IsParent l) : l.Nodup := by
  have ht : List.IsChain (TransGen s.IsParent) l := hl.imp fun _ _ hp => TransGen.single hp
  rw [List.isChain_iff_pairwise] at ht
  refine ht.imp ?_
  rintro a b hab rfl
  exact h a hab

/-- In an acyclic store a chain of parents is no longer than the store has entries. -/
theorem Acyclic.height (h : s.Acyclic) (r : Registry) : s.HeightAtMost s.registries.size r := by
  intro l hl
  -- all but the last registry of a chain have parents, hence entries, and none of them occurs twice
  have hnd : (r :: l).dropLast.Nodup := (h.nodup hl).sublist (List.dropLast_sublist _)
  have hle := hnd.length_le_of_subset (dropLast_subset_keys hl)
  simpa [Table.size] using hle

theorem HeightAtMost.parent {n : Nat} {r p : Registry} (h : s.HeightAtMost (n + 1) r) (hp : s.IsParent r p) :
    s.HeightAtMost n p := by
  intro l hl
  have := h (p :: l) (List.isChain_cons_cons.2 ⟨hp, hl⟩)
  simpa using this

theorem HeightAtMost.parents_eq_nil {r : Registry} (h : s.HeightAtMost 0 r) : s.parents r = [] := by
  rw [List.eq_nil_iff_forall_not_mem]
  intro p hp
  have := h [p] (List.isChain_cons_cons.2 ⟨hp, List.isChain_singleton p⟩)
  simp at this

/-! ### The bounded recursions -/

private theorem transGen_of_delegatesWithin {target : Registry} {n : Nat} {r : Registry}
    (h : s.delegatesWithin target n r = true) : TransGen s.IsParent r target := by
  induction n generalizing r with
  | zero => simp [delegatesWithin] at h
  | succ n ih =>
    simp only [delegatesWithin, List.any_eq_true, Bool.or_eq_true, beq_iff_eq] at h
    obtain ⟨p, hp, rfl | h⟩ := h
    · exact TransGen.single hp
    · exact TransGen.head hp (ih h)

private theorem delegatesWithin_of_transGen {target : Registry} {n : Nat} {r : Registry} (hn : s.HeightAtMost n r)
    (h : TransGen s.IsParent r target) : s.delegatesWithin target n r = true := by
  induction n generalizing r with
  | zero =>
    obtain ⟨p, hp, -⟩ := TransGen.head'_iff.1 h
    unfold IsParent at hp
    simp [hn.parents_eq_nil] at hp
  | succ n ih =>
    obtain ⟨p, hp, h⟩ := TransGen.head'_iff.1 h
    simp only [delegatesWithin, List.any_eq_true, Bool.or_eq_true, beq_iff_eq]
    refine ⟨p, hp, ?_⟩
    rcases reflTransGen_iff_eq_or_transGen.1 h with rfl | h
    · exact Or.inl rfl
    · exact Or.inr (ih (hn.parent hp) h)

/-- `delegates` decides whether a registry inherits from another. -/
theorem Acyclic.delegates_iff (h : s.Acyclic) (r target : Registry) :
    s.delegates r target = true ↔ TransGen s.IsParent r target :=
  ⟨transGen_of_delegatesWithin, delegatesWithin_of_transGen (h.height r)⟩

/-- A parent closes a cycle exactly if it is the registry itself or inherits from it. -/
theorem Acyclic.closesCycle_iff (h : s.Acyclic) (r parent : Registry) :
    s.closesCycle r parent = true ↔ ReflTransGen s.IsParent parent r := by
  unfold closesCycle
  rw [Bool.or_eq_true, beq_iff_eq, h.delegates_iff, reflTransGen_iff_eq_or_transGen]

/-- Past the height of a registry, its tree of names does not grow any more. -/
theorem lineagesWithin_eq {n m : Nat} {r : Registry} (hn : s.HeightAtMost n r) (hnm : n ≤ m) :
    s.lineagesWithin m r = s.lineagesWithin n r := by
  induction n generalizing m r with
  | zero =>
    cases m with
    | zero => rfl
    | succ m => simp [lineagesWithin, hn.parents_eq_nil]
  | succ n ih =>
    obtain ⟨m, rfl⟩ : ∃ k, m = k + 1 := ⟨m - 1, by omega⟩
    unfold lineagesWithin
    refine List.map_congr_left fun p hp => ?_
    rw [ih (hn.parent hp) (by omega)]

theorem lineagesWithin_congr (h : ∀ r, s'.parents r = s.parents r) (n : Nat) (r : Registry) :
    s'.lineagesWithin n r = s.lineagesWithin n r := by
  induction n generalizing r with
  | zero => rfl
  | succ n ih =>
    unfold lineagesWithin
    rw [h r]
    exact List.map_congr_left fun p _ => by rw [ih]

/-- Acyclic stores with the same parents render the same ancestors, however many entries they have. -/
theorem Acyclic.ancestors_congr (hs : s.Acyclic) (hs' : s'.Acyclic) (h : ∀ r, s'.parents r = s.parents r)
    (r : Registry) : s'.ancestors r = s.ancestors r := by
  have hl : s'.lineages r = s.lineages r := by
    unfold lineages
    -- the stores bound their recursions differently; the larger bound serves both
    rw [← lineagesWithin_eq (hs'.height r) (Nat.le_max_right s.registries.size _), lineagesWithin_congr h,
      lineagesWithin_eq (hs.height r) (Nat.le_max_left _ _)]
  unfold ancestors
  rw [hl]

/-! ### Changes -/

theorem Acyclic.congr (hs : s.Acyclic) (h : ∀ r, s'.parents r = s.parents r) : s'.Acyclic := by
  have hp : s'.IsParent = s.IsParent := by
    funext r p
    unfold IsParent
    rw [h]
  unfold Acyclic
  rw [hp]
  exact hs

/-- A chain that uses a new parent passes through the registry that got it. -/
private theorem transGen_addParent {r p a b : Registry} (h : TransGen (s.addParent r p).IsParent a b) :
    TransGen s.IsParent a b ∨ (ReflTransGen s.IsParent a r ∧ ReflTransGen s.IsParent p b) := by
  have step {a b : Registry} (h : (s.addParent r p).IsParent a b) : s.IsParent a b ∨ (a = r ∧ b = p) := by
    unfold IsParent at h ⊢
    rw [parents_addParent] at h
    split at h
    · subst_vars
      rcases List.mem_append.1 h with h | h
      · exact Or.inl h
      · exact Or.inr ⟨rfl, List.mem_singleton.1 h⟩
    · exact Or.inl h
  induction h with
  | single h =>
    rcases step h with h | ⟨rfl, rfl⟩
    · exact Or.inl (.single h)
    · exact Or.inr ⟨.refl, .refl⟩
  | tail _ h ih =>
    rcases step h with h | ⟨rfl, rfl⟩
    · rcases ih with ih | ih
      · exact Or.inl (ih.tail h)
      · exact Or.inr ⟨ih.1, ih.2.tail h⟩
    · rcases ih with ih | ih
      · exact Or.inr ⟨ih.to_reflTransGen, .refl⟩
      · exact Or.inr ⟨ih.1, .refl⟩

/-- A parent that closes no cycle leaves the store acyclic. -/
theorem Acyclic.addParent (h : s.Acyclic) {r p : Registry} (hr : s.closesCycle r p = false) :
    (s.addParent r p).Acyclic := by
  intro x hx
  rcases transGen_addParent hx with hx | ⟨hxr, hpx⟩
  · exact h x hx
  · have := (h.closesCycle_iff r p).2 (hpx.trans hxr)
    simp [hr] at this

end Store

end Injection
