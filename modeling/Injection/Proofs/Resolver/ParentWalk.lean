import Injection.Proofs.Registry.Reachable
import Injection.Proofs.Resolver.Rules

/-!
# Walks over parents end

What acyclic delegation is for: the recursions over parents need no bound.  Inheritance and the tree of names satisfy
their plain recursive equations, and a search ends if the attempts at the bindings on its way do
(`Resolver.AttemptsEnd.ends_search`).  These attempts run closures, which may extend registries while the walk goes on,
but the registries of its path stay a chain of parents, and no chain is longer than the store has entries.

A registry is extended exactly if no cycle arises, and then its parents are all that changes: `delegation_acyclic`.
-/

namespace Injection

open Run Relation

variable {γ σ : Type}

/-! ### The recursions without a bound -/

namespace Store

variable {s s' : Store γ σ}

/-- Past the height of a registry, no more registries are found above it. -/
theorem delegatesWithin_eq (target : Registry) {n m : Nat} {r : Registry} (hn : s.HeightAtMost n r) (hnm : n ≤ m) :
    s.delegatesWithin target m r = s.delegatesWithin target n r := by
  induction n generalizing m r with
  | zero =>
    cases m with
    | zero => rfl
    | succ m => simp [delegatesWithin, hn.parents_eq_nil]
  | succ n ih =>
    obtain ⟨m, rfl⟩ : ∃ k, m = k + 1 := ⟨m - 1, by omega⟩
    have hle : n ≤ m := by omega
    unfold delegatesWithin
    rw [Bool.eq_iff_iff, List.any_eq_true, List.any_eq_true]
    constructor
    · rintro ⟨p, hp, h⟩
      rw [ih (hn.parent hp) hle] at h
      exact ⟨p, hp, h⟩
    · rintro ⟨p, hp, h⟩
      rw [← ih (hn.parent hp) hle] at h
      exact ⟨p, hp, h⟩

theorem Acyclic.delegates_eq (hs : s.Acyclic) (r target : Registry) :
    s.delegates r target = (s.parents r).any fun p => p == target || s.delegates p target := by
  unfold delegates
  rw [← delegatesWithin_eq target (hs.height r) (Nat.le_succ _)]
  rfl

theorem Acyclic.lineages_eq (hs : s.Acyclic) (r : Registry) :
    s.lineages r = (s.parents r).map fun p => .node p.name (s.lineages p) := by
  unfold lineages
  rw [← lineagesWithin_eq (hs.height r) (Nat.le_succ _)]
  rfl

/-! ### Parents are only added -/

theorem Step.isParent (h : Step s s') {r p : Registry} (hp : s.IsParent r p) : s'.IsParent r p := by
  unfold IsParent at hp ⊢
  cases h with
  | given => exact hp
  | remembered => exact hp
  | bound => rwa [parents_bind]
  | unbound => rwa [parents_unbind]
  | extended =>
    rw [parents_addParent]
    split
    · subst_vars
      exact List.mem_append_left _ hp
    · exact hp

/-- A chain of parents down to a registry has at most as many steps as the store has entries. -/
theorem Acyclic.length_le (hs : s.Acyclic) {r : Registry} {l : List Registry}
    (h : (r :: l).IsChain fun q p => s.IsParent p q) : l.length ≤ s.registries.size := by
  have hrev : (r :: l).reverse.IsChain s.IsParent := List.isChain_reverse.2 h
  obtain ⟨root, up, hup⟩ := List.exists_cons_of_ne_nil (List.reverse_ne_nil_iff.2 (List.cons_ne_nil r l))
  rw [hup] at hrev
  have hle : up.length ≤ s.registries.size := hs.height root up hrev
  have hlen : (r :: l).length = (root :: up).length := by rw [← hup, List.length_reverse]
  simp only [List.length_cons] at hlen
  omega

theorem isParent_of_steps (h : ReflTransGen Step s s') {r p : Registry} (hp : s.IsParent r p) : s'.IsParent r p := by
  induction h with
  | refl => exact hp
  | tail _ h ih => exact h.isParent ih

end Store

/-! ### The walk of a search -/

namespace Resolver

variable {closures : Closures γ σ} {key : String} {N : Nat} {P : Store γ σ → Prop}

/-- From every store with the property, each attempt at a binding of the key ends, again in such a store; at most so
many registries hold anything there. -/
structure AttemptsEnd (closures : Closures γ σ) (key : String) (N : Nat) (P : Store γ σ → Prop) : Prop where
  size_le : ∀ s, P s → s.registries.size ≤ N
  attempt : ∀ s q b, P s → s.binding? q key = some b →
    ∃ a s' ms, Ends closures (resolveBinding closures · q key b) s a s' ms ∧ P s'

theorem steps_of_ends_search {s s' : Store γ σ} {r : Registry} {x : Option (Resolved γ)} {ms : Trace γ}
    (h : Ends closures (·.search r key) s x s' ms) : Effect.steps s s' ms := by
  obtain ⟨n, h⟩ := h
  exact (level_steps closures n).search r key h

/-- A walk over parents ends if the search from the first does, and then the walk over the others. -/
private theorem ends_searchParents_cons {s s₁ : Store γ σ} {p : Registry} {ps : List Registry}
    {x : Option (Resolved γ)} {ms₁ : Trace γ} (hp : Ends closures (·.search p key) s x s₁ ms₁) (h₁ : P s₁)
    (hps : ∃ y s₂ ms₂, Ends closures (searchParents · key ps) s₁ y s₂ ms₂ ∧ P s₂) :
    ∃ y s₂ ms₂, Ends closures (searchParents · key (p :: ps)) s y s₂ ms₂ ∧ P s₂ := by
  obtain ⟨n, hp⟩ := hp
  obtain ⟨y, s₂, ms₂, ⟨m, hps⟩, h₂⟩ := hps
  have hp := (level_below closures (Nat.le_max_left n m)).search p key _ _ hp
  have hps := (level_below closures (Nat.le_max_right n m)).searchParents key ps _ _ hps
  rcases x with _ | e | v
  · exact ⟨y, s₂, _, ⟨max n m, searchParents_cons.2 (.inr (.inr ⟨s₁, ms₁, ms₂, hp, hps, rfl⟩))⟩, h₂⟩
  · exact ⟨y, s₂, _, ⟨max n m, searchParents_cons.2 (.inr (.inl ⟨e, s₁, ms₁, ms₂, hp, hps, rfl⟩))⟩, h₂⟩
  · exact ⟨_, s₁, _, ⟨max n m, searchParents_cons.2 (.inl ⟨v, ms₁, hp, rfl, rfl⟩)⟩, h₁⟩

/-- The walk over the parents of a registry ends if all searches from them do. -/
private theorem ends_searchParents {r : Registry} {l : List Registry}
    (hsearch : ∀ {s : Store γ σ} {p : Registry}, s.Reachable → P s → (p :: r :: l).IsChain (fun q p => s.IsParent p q) →
      ∃ x s' ms, Ends closures (·.search p key) s x s' ms ∧ P s')
    {s : Store γ σ} (hs : s.Reachable) (h : P s) (hl : (r :: l).IsChain fun q p => s.IsParent p q)
    {ps : List Registry} (hps : ∀ p ∈ ps, s.IsParent r p) :
    ∃ x s' ms, Ends closures (searchParents · key ps) s x s' ms ∧ P s' := by
  induction ps generalizing s with
  | nil => exact ⟨none, s, [], ⟨0, searchParents_nil.2 ⟨rfl, rfl, rfl⟩⟩, h⟩
  | cons p ps ih =>
    have hpath : (p :: r :: l).IsChain fun q p => s.IsParent p q :=
      List.isChain_cons_cons.2 ⟨hps p List.mem_cons_self, hl⟩
    obtain ⟨x, s₁, ms₁, hx, h₁⟩ := hsearch hs h hpath
    -- whatever the search from the first parent did, the path to the others is still there
    have hsteps := steps_of_ends_search hx
    have hs₁ : s₁.Reachable := hs.steps hsteps
    have hl₁ : (r :: l).IsChain fun q p => s₁.IsParent p q := hl.imp fun _ _ => Store.isParent_of_steps hsteps
    have hps₁ : ∀ q ∈ ps, s₁.IsParent r q := fun q hq =>
      Store.isParent_of_steps hsteps (hps q (List.mem_cons_of_mem p hq))
    exact ends_searchParents_cons hx h₁ (ih hs₁ h₁ hl₁ hps₁)

/-- A search ends if the attempt at the registry's own binding does, or else the walk over its parents. -/
private theorem ends_search_of_walk (hA : AttemptsEnd closures key N P) {s : Store γ σ} {r : Registry} (h : P s)
    (hwalk : ∃ x s' ms, Ends closures (searchParents · key (s.parents r).reverse) s x s' ms ∧ P s') :
    ∃ x s' ms, Ends closures (·.search r key) s x s' ms ∧ P s' := by
  cases hb : s.binding? r key with
  | some b =>
    obtain ⟨a, s', ms, ⟨n, ha⟩, h'⟩ := hA.attempt s r b h hb
    exact ⟨_, s', _, ends_search_iff.2 ⟨n, (searchFrom_of_bound hb).2 ⟨a, ms, ha, rfl, rfl⟩⟩, h'⟩
  | none =>
    obtain ⟨x, s', ms, ⟨n, hx⟩, h'⟩ := hwalk
    exact ⟨x, s', _, ends_search_iff.2 ⟨n, (searchFrom_of_unbound hb).2 ⟨ms, hx, rfl⟩⟩, h'⟩

/-- A search ends from the last registry of a path; the longer the path, the fewer registries can follow. -/
private theorem ends_search_of_path (hA : AttemptsEnd closures key N P) {k : Nat} {s : Store γ σ} {r : Registry}
    {l : List Registry} (hs : s.Reachable) (h : P s) (hl : (r :: l).IsChain fun q p => s.IsParent p q)
    (hk : N ≤ l.length + k) : ∃ x s' ms, Ends closures (·.search r key) s x s' ms ∧ P s' := by
  induction k generalizing s r l with
  | zero =>
    refine ends_search_of_walk hA h (ends_searchParents ?_ hs h hl fun p hp => List.mem_reverse.1 hp)
    intro s' p hs' h' hpath
    have hlen := hs'.acyclic.length_le hpath
    have hsize := hA.size_le s' h'
    rw [List.length_cons] at hlen
    omega
  | succ k ih =>
    refine ends_search_of_walk hA h (ends_searchParents ?_ hs h hl fun p hp => List.mem_reverse.1 hp)
    intro s' p hs' h' hpath
    have hlen : N ≤ (r :: l).length + k := by
      rw [List.length_cons]
      omega
    exact ih hs' h' hpath hlen

/-- Where the attempts end and no more than so many registries come to hold anything, a search ends. -/
theorem AttemptsEnd.ends_search (hA : AttemptsEnd closures key N P) {s : Store γ σ} (hs : s.Reachable) (h : P s)
    (r : Registry) : ∃ x s' ms, Ends closures (·.search r key) s x s' ms ∧ P s' :=
  ends_search_of_path hA hs h (List.isChain_singleton r) (Nat.le_add_left N 0)

end Resolver

/-! ### Extending a registry -/

namespace Store

/-- The second store differs from the first in that the registry has one more parent, the last one. -/
structure Extended (s : Store γ σ) (r p : Registry) (s' : Store γ σ) : Prop where
  parents : s'.parents r = s.parents r ++ [p]
  others : ∀ q, q ≠ r → s'.parents q = s.parents q
  bindings : ∀ q key, s'.binding? q key = s.binding? q key
  fresh : s'.fresh = s.fresh
  memory : s'.memory = s.memory

theorem extended_addParent (s : Store γ σ) (r p : Registry) : s.Extended r p (s.addParent r p) := by
  constructor
  case parents => rw [parents_addParent, if_pos rfl]
  case others =>
    intro q hq
    rw [parents_addParent, if_neg hq]
  case bindings => exact fun q key => binding?_addParent s r p q key
  case fresh => rfl
  case memory => rfl

end Store

/-- What a request to extend a registry gives: an error that leaves the store as it was if a cycle would arise, else
the parent is added. -/
def Resolver.ExtendsUnlessCyclic (closures : Closures γ σ) (s : Store γ σ) (r p : Registry) : Prop :=
  ∀ n, ∃ x s' ms, (level closures (n + 1)).perform (.extend r p) s = some (x, s', ms) ∧
    (x = .error (.cyclicDelegation r.name p.name) ∧ s' = s ∧ ReflTransGen s.IsParent p r ∨
      x = .ok () ∧ s.Extended r p s' ∧ ¬ ReflTransGen s.IsParent p r)

theorem Store.Acyclic.extendsUnlessCyclic {s : Store γ σ} (hs : s.Acyclic) (closures : Closures γ σ) (r p : Registry) :
    Resolver.ExtendsUnlessCyclic closures s r p := by
  intro n
  cases hc : s.closesCycle r p with
  | true =>
    have hr := (hs.closesCycle_iff r p).1 hc
    exact ⟨_, s, _, between_eq_some.2 ⟨_, extend_apply_of_closesCycle hc, rfl⟩, .inl ⟨rfl, rfl, hr⟩⟩
  | false =>
    have hr : ¬ ReflTransGen s.IsParent p r := by
      intro h
      rw [(hs.closesCycle_iff r p).2 h] at hc
      cases hc
    exact ⟨_, _, _, between_eq_some.2 ⟨_, extend_apply hc, rfl⟩, .inr ⟨rfl, s.extended_addParent r p, hr⟩⟩

/-! ### All of it together -/

/-- Delegation in the store has no cycles, the recursions over parents end, and requests keep it so. -/
structure Store.DelegatesSoundly (closures : Closures γ σ) (s : Store γ σ) : Prop where
  acyclic : s.Acyclic
  /-- A chain of parents has an end. -/
  height : ∀ r, s.HeightAtMost s.registries.size r
  delegates : ∀ r target, s.delegates r target = (s.parents r).any fun p => p == target || s.delegates p target
  delegates_iff : ∀ r target, s.delegates r target = true ↔ TransGen s.IsParent r target
  lineages : ∀ r, s.lineages r = (s.parents r).map fun p => .node p.name (s.lineages p)
  search : ∀ key N P, Resolver.AttemptsEnd closures key N P → P s →
    ∀ r, ∃ x s' ms, Resolver.Ends closures (·.search r key) s x s' ms
  extend : ∀ r p, Resolver.ExtendsUnlessCyclic closures s r p

/-- Whatever has been done so far, inside closures or not. -/
theorem delegation_acyclic (closures : Closures γ σ) {s : Store γ σ} (hs : s.Reachable) :
    s.DelegatesSoundly closures := by
  have hacyclic := hs.acyclic
  constructor
  case acyclic => exact hacyclic
  case height => exact hacyclic.height
  case delegates => exact hacyclic.delegates_eq
  case delegates_iff => exact hacyclic.delegates_iff
  case lineages => exact hacyclic.lineages_eq
  case search =>
    intro key N P hA h r
    obtain ⟨x, s', ms, hx, -⟩ := hA.ends_search hs h r
    exact ⟨x, s', ms, hx⟩
  case extend => exact hacyclic.extendsUnlessCyclic closures

namespace Diamond

open Resolver

def top : Registry := ⟨0, "top"⟩

def left : Registry := ⟨1, "left"⟩

def right : Registry := ⟨2, "right"⟩

def bottom : Registry := ⟨3, "bottom"⟩

/-- There are no closures at all. -/
def closures : Closures Empty Unit where
  call body _ := body.elim
  construct body _ := body.elim

/-- Both parents of `bottom` have the parent `top`, which alone binds the key. -/
def store : Store Empty Unit :=
  (((((Store.empty ()).bind top "k" (.constant ⟨4, .unit⟩)).addParent left top).addParent right top).addParent bottom
    left).addParent bottom right

theorem reachable_store : store.Reachable := by
  refine ⟨(), .tail (.tail (.tail (.tail (.single (.bound _ top "k" _)) (.extended ?_)) (.extended ?_)) (.extended ?_))
    (.extended ?_)⟩
  · decide
  · decide
  · decide
  · decide

theorem attemptsEnd : AttemptsEnd closures "k" 4 (· = store) := by
  constructor
  case size_le =>
    rintro s rfl
    decide
  case attempt =>
    rintro s q b rfl hb
    have hq : b = .constant ⟨4, .unit⟩ := by
      simp only [store, Store.binding?_addParent, Store.binding?_bind] at hb
      split at hb
      · exact (Option.some.inj hb).symm
      · cases hb
    subst hq
    exact ⟨_, _, _, ⟨0, rfl⟩, rfl⟩

/-- The key is searched for to an end from the bottom, and the top does not come to inherit from the bottom. -/
theorem delegation_acyclic_diamond :
    store.Reachable ∧ (∃ x s' ms, Ends closures (·.search bottom "k") store x s' ms) ∧
      ∃ ms, (level closures 1).perform (.extend top bottom) store =
        some (.error (.cyclicDelegation "top" "bottom"), store, ms) := by
  have h := delegation_acyclic closures reachable_store
  refine ⟨reachable_store, h.search "k" 4 _ attemptsEnd rfl bottom, ?_⟩
  have hreach : Relation.ReflTransGen store.IsParent bottom top :=
    ((h.delegates_iff bottom top).1 (by decide)).to_reflTransGen
  obtain ⟨x, s', ms, hx, ⟨rfl, rfl, -⟩ | ⟨-, -, hnot⟩⟩ := h.extend top bottom 0
  · exact ⟨ms, hx⟩
  · exact absurd hreach hnot

end Diamond

end Injection
