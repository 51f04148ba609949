import Injection.Proofs.Registry.Reachable
import Injection.Proofs.Resolver.Rules

/-!
# The order of a search

A search for a key stops at the first registry on its way that binds the key, so its candidates can be listed
beforehand: a registry that binds the key is its own only candidate, any other has the candidates of its parents,
the last parent first (`Store.candidates`).  As long as nothing but memoization changes registries, a search tries
the candidates one after the other, each in the store that the attempts before it left, up to the first value.

The main statement is `get_tries_candidates`; the two directions of the search are `tries_of_search` and
`search_of_tries`.
-/

namespace Injection

open Run

variable {γ σ α : Type}

/-! ### Candidates -/

namespace Store

/-- The registries whose bindings a search from `r` tries, in order, for parents at most so many steps up. -/
def candidatesWithin (s : Store γ σ) (key : String) : Nat → Registry → List Registry
  | 0, r => if (s.binding? r key).isSome then [r] else []
  | n + 1, r =>
    if (s.binding? r key).isSome then [r] else (s.parents r).reverse.flatMap (s.candidatesWithin key n)

/-- The registries whose bindings of the key a search from `r` tries, in order. -/
def candidates (s : Store γ σ) (key : String) (r : Registry) : List Registry :=
  s.candidatesWithin key s.registries.size r

theorem candidatesWithin_of_bound {s : Store γ σ} {key : String} {r : Registry} {b : Binding γ}
    (h : s.binding? r key = some b) (n : Nat) : s.candidatesWithin key n r = [r] := by
  cases n <;> simp [candidatesWithin, h]

/-- Past the height of a registry there are no further candidates. -/
theorem candidatesWithin_eq {s : Store γ σ} (key : String) {n m : Nat} {r : Registry} (hn : s.HeightAtMost n r)
    (hnm : n ≤ m) : s.candidatesWithin key m r = s.candidatesWithin key n r := by
  induction n generalizing m r with
  | zero =>
    cases m with
    | zero => rfl
    | succ m => simp [candidatesWithin, hn.parents_eq_nil]
  | succ n ih =>
    obtain ⟨m, rfl⟩ : ∃ k, m = k + 1 := ⟨m - 1, by omega⟩
    unfold candidatesWithin
    split
    · rfl
    · refine List.flatMap_congr fun p hp => ?_
      exact ih (hn.parent (List.mem_reverse.1 hp)) (by omega)

/-- The candidates of a registry are those of its parents unless it binds the key. -/
theorem Acyclic.candidates_eq {s : Store γ σ} (hs : s.Acyclic) (key : String) (r : Registry) :
    s.candidates key r =
      if (s.binding? r key).isSome then [r] else (s.parents r).reverse.flatMap (s.candidates key) := by
  unfold candidates
  rw [← candidatesWithin_eq key (hs.height r) (Nat.le_succ _)]
  rfl

/-- The two stores have the same parents and bind the same keys. -/
structure SameShape (s s' : Store γ σ) : Prop where
  parents : ∀ r, s'.parents r = s.parents r
  bound : ∀ r key, (s'.binding? r key).isSome = (s.binding? r key).isSome

theorem SameShape.refl (s : Store γ σ) : s.SameShape s :=
  ⟨fun _ => rfl, fun _ _ => rfl⟩

theorem SameShape.trans {s s' s'' : Store γ σ} (h : s.SameShape s') (h' : s'.SameShape s'') : s.SameShape s'' :=
  ⟨fun r => (h'.parents r).trans (h.parents r), fun r key => (h'.bound r key).trans (h.bound r key)⟩

theorem SameShape.candidatesWithin_eq {s s' : Store γ σ} (h : s.SameShape s') (key : String) (n : Nat)
    (r : Registry) : s'.candidatesWithin key n r = s.candidatesWithin key n r := by
  induction n generalizing r with
  | zero => simp only [candidatesWithin, h.bound]
  | succ n ih =>
    simp only [candidatesWithin, h.bound, h.parents]
    rw [funext ih]

theorem SameShape.heightAtMost {s s' : Store γ σ} (h : s.SameShape s') {n : Nat} {r : Registry}
    (hn : s.HeightAtMost n r) : s'.HeightAtMost n r := by
  have hp : s'.IsParent = s.IsParent := by
    funext q p
    unfold IsParent
    rw [h.parents]
  unfold HeightAtMost
  rw [hp]
  exact hn

end Store

/-! ### Runs that only memoize -/

/-- Nothing but memoization changes registries: no key is set or removed, no registry is extended. -/
def Trace.OnlyMemoizes (ms : Trace γ) : Prop :=
  ∀ c, .changed c ∈ ms → ∃ r key v, c = .memoized r key v

/-- Closures, locks, provided values and changes; spans, log lines and the ends of searches and requests are left
out. -/
def Mark.isWork : Mark γ → Bool
  | .locked _ | .unlocked _ | .called _ _ | .returned _ _ | .provided _ _ _ _ | .changed _ | .forked | .joined => true
  | _ => false

/-- What was done in a run. -/
def Trace.work (ms : Trace γ) : Trace γ :=
  ms.filter Mark.isWork

namespace Trace

@[simp] theorem onlyMemoizes_append {ms ms' : Trace γ} :
    OnlyMemoizes (ms ++ ms') ↔ ms.OnlyMemoizes ∧ ms'.OnlyMemoizes := by
  simp only [OnlyMemoizes, List.mem_append]
  exact ⟨fun h => ⟨fun c hc => h c (.inl hc), fun c hc => h c (.inr hc)⟩,
    fun h c hc => hc.elim (h.1 c) (h.2 c)⟩

@[simp] theorem work_append (ms ms' : Trace γ) : work (ms ++ ms') = ms.work ++ ms'.work :=
  List.filter_append ..

theorem onlyMemoizes_work {ms : Trace γ} : OnlyMemoizes ms.work ↔ ms.OnlyMemoizes := by
  simp [OnlyMemoizes, work, Mark.isWork]

theorem onlyMemoizes_congr {ms ms' : Trace γ} (h : ms.work = ms'.work) :
    ms.OnlyMemoizes ↔ ms'.OnlyMemoizes := by
  rw [← onlyMemoizes_work, h, onlyMemoizes_work]

end Trace

/-- Where nothing but memoization happens, registries keep their parents and the keys they bind. -/
def Effect.shape (s s' : Store γ σ) (ms : Trace γ) : Prop :=
  ms.OnlyMemoizes → s.SameShape s'

theorem Effect.shape_law : Effect.Law (Effect.shape (γ := γ) (σ := σ)) where
  refl s _ := .refl s
  trans h h' hms := by
    rw [Trace.onlyMemoizes_append] at hms
    exact (h hms.1).trans (h' hms.2)
  plain s _ _ _ := .refl s
  skip s _ := ⟨fun _ => rfl, fun _ _ => rfl⟩
  remember s memory _ := ⟨fun _ => rfl, fun _ _ => rfl⟩
  bind s r key b hms := by simpa using hms _ (List.mem_singleton.2 rfl)
  unbind s r key hms := by simpa using hms _ (List.mem_singleton.2 rfl)
  extend _ hms := by simpa using hms _ (List.mem_singleton.2 rfl)

theorem Effect.shape_searchLaw (r : Registry) (key : String) :
    Effect.SearchLaw (Effect.shape (γ := γ) (σ := σ)) r key where
  searching s _ := .refl s
  searched s _ _ := .refl s
  provided s _ _ _ := .refl s
  memoized {s} _ _ _ hb _ v _ := by
    refine ⟨fun q => Store.parents_bind .., fun q k => ?_⟩
    rw [Store.binding?_bind]
    split
    · rename_i h
      simp [h.1, h.2, hb]
    · rfl

theorem Resolver.level_shape (closures : Closures γ σ) (n : Nat) : (level closures n).Keep Effect.shape :=
  Effect.shape_law.level_keeps_of_searchLaw Effect.shape_searchLaw closures n

/-! ### Trying candidates -/

namespace Resolver

/-- The bindings of the key in the registries are tried in order, each in the store that the attempts before it
left, up to the first value. -/
inductive Tries (closures : Closures γ σ) (key : String) :
    Store γ σ → List Registry → Option (Value γ) → Store γ σ → Trace γ → Prop
  | exhausted (s : Store γ σ) : Tries closures key s [] none s []
  | found {s s' : Store γ σ} {q : Registry} {qs : List Registry} {b : Binding γ} {v : Value γ} {ms : Trace γ}
    (bound : s.binding? q key = some b)
    (attempt : Ends closures (resolveBinding closures · q key b) s (.ok v) s' ms) :
    Tries closures key s (q :: qs) (some v) s' ms
  | failed {s s' s'' : Store γ σ} {q : Registry} {qs : List Registry} {b : Binding γ} {e : ResolveError}
    {o : Option (Value γ)} {ms ms' : Trace γ} (bound : s.binding? q key = some b)
    (attempt : Ends closures (resolveBinding closures · q key b) s (.error e) s' ms)
    (rest : Tries closures key s' qs o s'' ms') : Tries closures key s (q :: qs) o s'' (ms ++ ms')

variable {closures : Closures γ σ} {key : String} {s s' s'' : Store γ σ} {qs qs' : List Registry} {ms ms' : Trace γ}

namespace Tries

theorem append_of_none {o : Option (Value γ)} (h : Tries closures key s qs none s' ms)
    (h' : Tries closures key s' qs' o s'' ms') : Tries closures key s (qs ++ qs') o s'' (ms ++ ms') := by
  generalize hn : (none : Option (Value γ)) = x at h
  induction h with
  | exhausted => exact h'
  | found => cases hn
  | failed bound attempt _ ih =>
    rw [List.append_assoc]
    exact .failed bound attempt (ih h' hn)

theorem append_of_some {v : Value γ} (h : Tries closures key s qs (some v) s' ms) (qs' : List Registry) :
    Tries closures key s (qs ++ qs') (some v) s' ms := by
  generalize hv : some v = x at h
  induction h with
  | exhausted => cases hv
  | found bound attempt => exact .found bound attempt
  | failed bound attempt _ ih => exact .failed bound attempt (ih hv)

/-- The registries that come later are tried only if none before them gives a value. -/
theorem of_append {o : Option (Value γ)} (h : Tries closures key s (qs ++ qs') o s'' ms) :
    (∃ v, o = some v ∧ Tries closures key s qs (some v) s'' ms) ∨
      ∃ s' ms₁ ms₂, Tries closures key s qs none s' ms₁ ∧ Tries closures key s' qs' o s'' ms₂ ∧ ms = ms₁ ++ ms₂ := by
  induction qs generalizing s ms with
  | nil => exact .inr ⟨s, [], ms, .exhausted s, h, rfl⟩
  | cons q qs ih =>
    cases h with
    | found bound attempt => exact .inl ⟨_, rfl, .found bound attempt⟩
    | failed bound attempt rest =>
      rcases ih rest with ⟨v, rfl, h⟩ | ⟨s₁, ms₁, ms₂, h₁, h₂, rfl⟩
      · exact .inl ⟨v, rfl, .failed bound attempt h⟩
      · exact .inr ⟨s₁, _, ms₂, .failed bound attempt h₁, h₂, by rw [List.append_assoc]⟩

/-- Attempts have the effects that all runs have. -/
theorem effect {R : Effect γ σ} (hR : R.Law) (hS : ∀ r key, R.SearchLaw r key) {o : Option (Value γ)}
    (h : Tries closures key s qs o s' ms) : R s s' ms := by
  have attempt {q b s a s' ms} (h : Ends closures (resolveBinding closures · q key b) s a s' ms) : R s s' ms := by
    obtain ⟨n, h⟩ := h
    have hk := hR.level_keeps_of_searchLaw hS closures n
    exact (hS q key).resolveBinding hR.toActivityLaw hk.resolve hk.perform b h
  induction h with
  | exhausted s => exact hR.refl s
  | found _ h => exact attempt h
  | failed _ h _ ih => exact hR.trans (attempt h) ih

end Tries

/-- The value that a search found, if it did. -/
def valueOf (x : Option (Resolved γ)) : Option (Value γ) :=
  x.bind Except.toOption

@[simp] private theorem work_of_search {r : Registry} {x : Option (Resolved γ)} :
    Trace.work (.searching r key :: (ms ++ [.searched r key x])) = ms.work := by
  simp [Trace.work, Mark.isWork]

/-! ### A search tries its candidates -/

private theorem tries_of_bound {n : Nat} {r : Registry} {b : Binding γ} (hb : s.binding? r key = some b)
    {x : Option (Resolved γ)} (h : (level closures (n + 1)).search r key s = some (x, s', ms)) :
    ∃ ms', Tries closures key s [r] (valueOf x) s' ms' ∧ ms'.work = ms.work := by
  obtain ⟨a, ms', ha, rfl, rfl⟩ := (searchFrom_of_bound hb).1 h
  rw [work_of_search]
  cases a with
  | ok v => exact ⟨ms', .found hb ⟨n, ha⟩, rfl⟩
  | error e => exact ⟨ms' ++ [], .failed hb ⟨n, ha⟩ (.exhausted s'), by rw [List.append_nil]⟩

private theorem tries_of_searchParents {low : Resolver γ σ} {k : Nat}
    (hshape : ∀ r, (low.search r key).Keeps Effect.shape)
    (hsearch : ∀ {s s' : Store γ σ} {ms : Trace γ} {r : Registry} {x : Option (Resolved γ)}, s.HeightAtMost k r →
      low.search r key s = some (x, s', ms) → ms.OnlyMemoizes →
        ∃ ms', Tries closures key s (s.candidatesWithin key k r) (valueOf x) s' ms' ∧ ms'.work = ms.work)
    {ps : List Registry} {x : Option (Resolved γ)} (hps : ∀ p ∈ ps, s.HeightAtMost k p)
    (h : searchParents low key ps s = some (x, s', ms)) (hms : ms.OnlyMemoizes) :
    ∃ ms', Tries closures key s (ps.flatMap (s.candidatesWithin key k)) (valueOf x) s' ms' ∧ ms'.work = ms.work := by
  induction ps generalizing s ms with
  | nil =>
    obtain ⟨rfl, rfl, rfl⟩ := searchParents_nil.1 h
    exact ⟨[], .exhausted s', rfl⟩
  | cons p ps ih =>
    have hp := hps p List.mem_cons_self
    -- the first parent leaves a store of the same shape, in which the others have the same candidates
    have rest {s₁ : Store γ σ} {ms₁ ms₂ : Trace γ} (h₁ : s.SameShape s₁)
        (h₂ : searchParents low key ps s₁ = some (x, s', ms₂)) (hms₂ : ms₂.OnlyMemoizes)
        (ht : Tries closures key s (s.candidatesWithin key k p) none s₁ ms₁) :
        ∃ ms', Tries closures key s ((p :: ps).flatMap (s.candidatesWithin key k)) (valueOf x) s' ms' ∧
          ms'.work = ms₁.work ++ ms₂.work := by
      obtain ⟨ms', ht', hw⟩ := ih (fun q hq => h₁.heightAtMost (hps q (List.mem_cons_of_mem _ hq))) h₂ hms₂
      rw [funext (h₁.candidatesWithin_eq key k)] at ht'
      exact ⟨ms₁ ++ ms', ht.append_of_none ht', by rw [Trace.work_append, hw]⟩
    rcases searchParents_cons.1 h with ⟨v, ms₁, h₁, rfl, rfl⟩ | ⟨e, s₁, ms₁, ms₂, h₁, h₂, rfl⟩ |
      ⟨s₁, ms₁, ms₂, h₁, h₂, rfl⟩
    · obtain ⟨ms', ht, hw⟩ := hsearch hp h₁ (Trace.onlyMemoizes_append.1 hms).1
      refine ⟨ms', ht.append_of_some _, ?_⟩
      rw [hw]
      simp [Trace.work, Mark.isWork]
    · rw [← List.singleton_append, Trace.onlyMemoizes_append, Trace.onlyMemoizes_append] at hms
      obtain ⟨ms', ht, hw⟩ := hsearch hp h₁ hms.1
      obtain ⟨ms'', ht', hw'⟩ := rest (hshape p h₁ hms.1) h₂ hms.2.2 ht
      refine ⟨ms'', ht', ?_⟩
      rw [hw', hw]
      simp [Trace.work, Mark.isWork]
    · rw [Trace.onlyMemoizes_append] at hms
      obtain ⟨ms', ht, hw⟩ := hsearch hp h₁ hms.1
      obtain ⟨ms'', ht', hw'⟩ := rest (hshape p h₁ hms.1) h₂ hms.2 ht
      exact ⟨ms'', ht', by rw [hw', hw, Trace.work_append]⟩

/-- A search that only memoizes tries the candidates in order. -/
theorem tries_of_search {k n : Nat} {r : Registry} {x : Option (Resolved γ)} (hk : s.HeightAtMost k r)
    (h : (level closures n).search r key s = some (x, s', ms)) (hms : ms.OnlyMemoizes) :
    ∃ ms', Tries closures key s (s.candidatesWithin key k r) (valueOf x) s' ms' ∧ ms'.work = ms.work := by
  induction k generalizing n r s x s' ms with
  | zero =>
    obtain _ | n := n
    · cases h
    cases hb : s.binding? r key with
    | some b =>
      rw [Store.candidatesWithin_of_bound hb]
      exact tries_of_bound hb h
    | none =>
      obtain ⟨ms', hps, rfl⟩ := (searchFrom_of_unbound hb).1 h
      rw [hk.parents_eq_nil] at hps
      obtain ⟨rfl, rfl, rfl⟩ := searchParents_nil.1 hps
      simp only [Store.candidatesWithin, hb]
      exact ⟨[], .exhausted s', rfl⟩
  | succ k ih =>
    obtain _ | n := n
    · cases h
    cases hb : s.binding? r key with
    | some b =>
      rw [Store.candidatesWithin_of_bound hb]
      exact tries_of_bound hb h
    | none =>
      obtain ⟨ms', hps, rfl⟩ := (searchFrom_of_unbound hb).1 h
      rw [work_of_search]
      rw [Trace.onlyMemoizes_congr work_of_search] at hms
      simp only [Store.candidatesWithin, hb]
      exact tries_of_searchParents (fun r => (level_shape closures n).search r key) ih
        (fun p hp => hk.parent (List.mem_reverse.1 hp)) hps hms

private theorem searchParents_of_tries {k : Nat}
    (hsearch : ∀ {s s' : Store γ σ} {ms : Trace γ} {r : Registry} {o : Option (Value γ)}, s.HeightAtMost k r →
      Tries closures key s (s.candidatesWithin key k r) o s' ms → ms.OnlyMemoizes →
        ∃ x ms', Ends closures (·.search r key) s x s' ms' ∧ valueOf x = o ∧ ms'.work = ms.work)
    {ps : List Registry} {o : Option (Value γ)} (hps : ∀ p ∈ ps, s.HeightAtMost k p)
    (h : Tries closures key s (ps.flatMap (s.candidatesWithin key k)) o s' ms) (hms : ms.OnlyMemoizes) :
    ∃ ms', Ends closures (searchParents · key ps) s (o.map .ok) s' ms' ∧ ms'.work = ms.work := by
  induction ps generalizing s ms with
  | nil =>
    cases h
    exact ⟨[], ⟨0, searchParents_nil.2 ⟨rfl, rfl, rfl⟩⟩, rfl⟩
  | cons p ps ih =>
    have hp := hps p List.mem_cons_self
    rw [List.flatMap_cons] at h
    rcases h.of_append with ⟨v, rfl, h₁⟩ | ⟨s₁, ms₁, ms₂, h₁, h₂, rfl⟩
    · obtain ⟨x, ms', ⟨n, hx⟩, hv, hw⟩ := hsearch hp h₁ hms
      obtain rfl : x = some (.ok v) := by
        rcases x with _ | e | w
        · cases hv
        · cases hv
        · cases hv
          rfl
      refine ⟨ms' ++ [.logged (.foundInParent p.name)], ⟨n, searchParents_cons.2 (.inl ⟨v, ms', hx, rfl, rfl⟩)⟩, ?_⟩
      rw [← hw]
      simp [Trace.work, Mark.isWork]
    · rw [Trace.onlyMemoizes_append] at hms
      obtain ⟨x, ms₁', ⟨n, hx⟩, hv, hw₁⟩ := hsearch hp h₁ hms.1
      have hshape := h₁.effect Effect.shape_law Effect.shape_searchLaw hms.1
      rw [← funext (hshape.candidatesWithin_eq key k)] at h₂
      obtain ⟨ms₂', ⟨m, hm⟩, hw₂⟩ :=
        ih (fun q hq => hshape.heightAtMost (hps q (List.mem_cons_of_mem _ hq))) h₂ hms.2
      -- both parts end over the higher of the two levels
      have hx := (level_below closures (Nat.le_max_left n m)).search p key _ _ hx
      have hm := (level_below closures (Nat.le_max_right n m)).searchParents key ps _ _ hm
      rcases x with _ | e | v
      · exact ⟨ms₁' ++ ms₂', ⟨_, searchParents_cons.2 (.inr (.inr ⟨s₁, ms₁', ms₂', hx, hm, rfl⟩))⟩,
          by rw [Trace.work_append, Trace.work_append, hw₁, hw₂]⟩
      · refine ⟨ms₁' ++ .logged (.parentFailed p.name e.message) :: ms₂',
          ⟨_, searchParents_cons.2 (.inr (.inl ⟨e, s₁, ms₁', ms₂', hx, hm, rfl⟩))⟩, ?_⟩
        rw [Trace.work_append ms₁ ms₂, ← hw₁, ← hw₂]
        simp [Trace.work, Mark.isWork]
      · cases hv

private theorem search_of_bound {r : Registry} {o : Option (Value γ)} (h : Tries closures key s [r] o s' ms) :
    ∃ x ms', Ends closures (·.search r key) s x s' ms' ∧ valueOf x = o ∧ ms'.work = ms.work := by
  have ends {a : Resolved γ} {b : Binding γ} {s' : Store γ σ} {ms : Trace γ} (hb : s.binding? r key = some b)
      (hend : Ends closures (resolveBinding closures · r key b) s a s' ms) :
      Ends closures (·.search r key) s (some a) s' (.searching r key :: (ms ++ [.searched r key (some a)])) := by
    obtain ⟨n, hn⟩ := hend
    exact ends_search_iff.2 ⟨n, (searchFrom_of_bound hb).2 ⟨a, ms, hn, rfl, rfl⟩⟩
  cases h with
  | found bound attempt => exact ⟨_, _, ends bound attempt, rfl, work_of_search⟩
  | failed bound attempt rest =>
    cases rest
    exact ⟨_, _, ends bound attempt, rfl, by rw [work_of_search, List.append_nil]⟩

/-- Attempts that only memoize, one candidate after the other, make up a search. -/
theorem search_of_tries {k : Nat} {r : Registry} {o : Option (Value γ)} (hk : s.HeightAtMost k r)
    (h : Tries closures key s (s.candidatesWithin key k r) o s' ms) (hms : ms.OnlyMemoizes) :
    ∃ x ms', Ends closures (·.search r key) s x s' ms' ∧ valueOf x = o ∧ ms'.work = ms.work := by
  induction k generalizing r s o s' ms with
  | zero =>
    cases hb : s.binding? r key with
    | some b =>
      rw [Store.candidatesWithin_of_bound hb] at h
      exact search_of_bound h
    | none =>
      simp only [Store.candidatesWithin, hb] at h
      cases h
      have hps : searchParents (level closures 0) key (s.parents r).reverse s = some (none, s, []) := by
        rw [hk.parents_eq_nil]
        exact searchParents_nil.2 ⟨rfl, rfl, rfl⟩
      exact ⟨none, _, ends_search_iff.2 ⟨0, (searchFrom_of_unbound hb).2 ⟨[], hps, rfl⟩⟩, rfl, work_of_search⟩
  | succ k ih =>
    cases hb : s.binding? r key with
    | some b =>
      rw [Store.candidatesWithin_of_bound hb] at h
      exact search_of_bound h
    | none =>
      simp only [Store.candidatesWithin, hb] at h
      obtain ⟨ms', ⟨n, hps⟩, hw⟩ :=
        searchParents_of_tries ih (fun p hp => hk.parent (List.mem_reverse.1 hp)) h hms
      refine ⟨o.map .ok, _, ends_search_iff.2 ⟨n, (searchFrom_of_unbound hb).2 ⟨ms', hps, rfl⟩⟩, ?_, ?_⟩
      · cases o <;> rfl
      · rw [work_of_search, hw]

/-- Parents give a value or nothing; what fails in them is skipped. -/
theorem searchParents_gives {low : Resolver γ σ} {ps : List Registry} {x : Option (Resolved γ)}
    (h : searchParents low key ps s = some (x, s', ms)) : x = (valueOf x).map .ok := by
  induction ps generalizing s ms with
  | nil =>
    obtain ⟨rfl, -, -⟩ := searchParents_nil.1 h
    rfl
  | cons p ps ih =>
    rcases searchParents_cons.1 h with ⟨v, _, _, rfl, _⟩ | ⟨_, _, _, _, _, hps, _⟩ | ⟨_, _, _, _, hps, _⟩
    · rfl
    · exact ih hps
    · exact ih hps

/-! ### Getting a key -/

/-- The trace of a request for a key, around that of the search. -/
def aroundSearch (s : Store γ σ) (r : Registry) (key : String) (x : Option (Resolved γ)) (ms : Trace γ) : Trace γ :=
  let a := x.getD (.error (unregisteredIn s r key))
  .began .get :: .entered (.get key r.name) ::
    (ms ++ missed s r key x ++
      .left (.get key r.name) :: (reportOf a ++ [.ended .get (failure ResolveError.message a)]))

@[simp] theorem work_aroundSearch (s : Store γ σ) (r : Registry) (x : Option (Resolved γ)) :
    (aroundSearch s r key x ms).work = ms.work := by
  rcases x with _ | e | v <;>
    simp [aroundSearch, Trace.work, Mark.isWork, missed, reportOf, List.filter]

/-- A request for a key gives what a search finds, or that the key is not registered. -/
theorem ends_get_iff {r : Registry} {a : Resolved γ} :
    Ends closures (·.perform (.get r key)) s a s' ms ↔
      ∃ x ms', Ends closures (·.search r key) s x s' ms' ∧ a = x.getD (.error (unregisteredIn s' r key)) ∧
        ms = aroundSearch s' r key x ms' := by
  rw [ends_perform_iff]
  constructor
  · rintro ⟨n, h⟩
    obtain ⟨ms₁, hr, rfl⟩ := performWith_get_eq_some.1 h
    obtain ⟨m, hm⟩ := ends_resolve_iff.1 ⟨n, hr⟩
    obtain ⟨x, ms₂, hx, rfl, rfl⟩ := resolveKey_eq_some.1 hm
    exact ⟨x, ms₂, ⟨m, hx⟩, rfl, by simp [aroundSearch]⟩
  · rintro ⟨x, ms', ⟨n, h⟩, rfl, rfl⟩
    obtain ⟨m, hm⟩ := ends_resolve_iff.2 ⟨n, resolveKey_eq_some.2 ⟨x, ms', h, rfl, rfl⟩⟩
    exact ⟨m, performWith_get_eq_some.2 ⟨_, hm, by simp [aroundSearch]⟩⟩

/-- A key that the registry binds itself is resolved by that binding alone. -/
theorem ends_get_iff_of_bound {r : Registry} {b : Binding γ} {a : Resolved γ} (hb : s.binding? r key = some b) :
    Ends closures (·.perform (.get r key)) s a s' ms ↔
      ∃ ms', Ends closures (resolveBinding closures · r key b) s a s' ms' ∧
        ms = aroundSearch s' r key (some a) (.searching r key :: (ms' ++ [.searched r key (some a)])) := by
  rw [ends_get_iff]
  constructor
  · rintro ⟨x, ms', hx, rfl, rfl⟩
    obtain ⟨n, hn⟩ := ends_search_iff.1 hx
    obtain ⟨a, ms', ha, rfl, rfl⟩ := (searchFrom_of_bound hb).1 hn
    exact ⟨ms', ⟨n, ha⟩, rfl⟩
  · rintro ⟨ms', ⟨n, ha⟩, rfl⟩
    exact ⟨some a, _, ends_search_iff.2 ⟨n, (searchFrom_of_bound hb).2 ⟨a, ms', ha, rfl, rfl⟩⟩, rfl, rfl⟩

/-- A registry has the same ancestors before and after a search that only memoizes. -/
private theorem unregisteredIn_eq (hs : s.Reachable) (hs' : s'.Reachable) (hshape : s.SameShape s') (r : Registry)
    (key : String) : unregisteredIn s' r key = unregisteredIn s r key := by
  unfold unregisteredIn
  rw [hs.acyclic.ancestors_congr hs'.acyclic hshape.parents]

private theorem candidates_of_unbound (hs : s.Reachable) {r : Registry} (hb : s.binding? r key = none) :
    s.candidates key r = (s.parents r).reverse.flatMap (s.candidates key) := by
  rw [hs.acyclic.candidates_eq, hb]
  rfl

/-- A request for a key that the registry does not bind tries the candidates, if it only memoizes. -/
theorem tries_of_get (hs : s.Reachable) {r : Registry} (hb : s.binding? r key = none) {a : Resolved γ}
    (h : Ends closures (·.perform (.get r key)) s a s' ms) (hms : ms.OnlyMemoizes) :
    ∃ o ms', Tries closures key s (s.candidates key r) o s' ms' ∧ ms'.work = ms.work ∧
      a = o.elim (.error (unregisteredIn s r key)) .ok := by
  obtain ⟨x, ms', hx, rfl, rfl⟩ := ends_get_iff.1 h
  rw [Trace.onlyMemoizes_congr (work_aroundSearch s' r x)] at hms
  obtain ⟨n, hn⟩ := ends_search_iff.1 hx
  have hreach : s'.Reachable := hs.steps
    ((Effect.steps_searchLaw r key).searchFrom Effect.steps_law.toActivityLaw (level_steps closures n) hn)
  have hshape :=
    (Effect.shape_searchLaw r key).searchFrom Effect.shape_law.toActivityLaw (level_shape closures n) hn hms
  obtain ⟨ms₁, hps, rfl⟩ := (searchFrom_of_unbound hb).1 hn
  rw [Trace.onlyMemoizes_congr work_of_search] at hms
  obtain ⟨ms₂, ht, hw⟩ := tries_of_searchParents (fun r => (level_shape closures n).search r key) tries_of_search
    (fun p _ => hs.acyclic.height p) hps hms
  rw [candidates_of_unbound hs hb]
  refine ⟨valueOf x, ms₂, ht, ?_, ?_⟩
  · rw [work_aroundSearch, work_of_search, hw]
  · rw [searchParents_gives hps, unregisteredIn_eq hs hreach hshape]
    cases valueOf x <;> rfl

/-- Trying the candidates is what a request for a key does that the registry does not bind. -/
theorem get_of_tries (hs : s.Reachable) {r : Registry} (hb : s.binding? r key = none) {o : Option (Value γ)}
    (h : Tries closures key s (s.candidates key r) o s' ms) (hms : ms.OnlyMemoizes) :
    ∃ ms', Ends closures (·.perform (.get r key)) s (o.elim (.error (unregisteredIn s r key)) .ok) s' ms' ∧
      ms'.work = ms.work := by
  have hreach : s'.Reachable := hs.steps (h.effect Effect.steps_law Effect.steps_searchLaw)
  have hshape := h.effect Effect.shape_law Effect.shape_searchLaw hms
  rw [candidates_of_unbound hs hb] at h
  obtain ⟨ms₁, ⟨n, hps⟩, hw⟩ := searchParents_of_tries search_of_tries (fun p _ => hs.acyclic.height p) h hms
  have hsearch : Ends closures (·.search r key) s _ s' _ :=
    ends_search_iff.2 ⟨n, (searchFrom_of_unbound hb).2 ⟨ms₁, hps, rfl⟩⟩
  refine ⟨_, ends_get_iff.2 ⟨o.map .ok, _, hsearch, ?_, rfl⟩, ?_⟩
  · rw [unregisteredIn_eq hs hreach hshape]
    cases o <;> rfl
  · rw [work_aroundSearch, work_of_search, hw]

/-- What a request for a key gives.  A key that the registry binds itself is resolved by that binding alone.  Any other
is looked for in the candidates, if nothing but memoization happens on the way: the first value is the result, and
without one the key is not registered, whatever errors the candidates gave. -/
theorem get_tries_candidates (closures : Closures γ σ) {s : Store γ σ} (hs : s.Reachable) (r : Registry)
    (key : String) :
    (∀ q, s.candidates key q =
      if (s.binding? q key).isSome then [q] else (s.parents q).reverse.flatMap (s.candidates key)) ∧
    (∀ b, s.binding? r key = some b → ∀ a s' ms,
      Ends closures (·.perform (.get r key)) s a s' ms ↔
        ∃ ms', Ends closures (resolveBinding closures · r key b) s a s' ms' ∧
          ms = aroundSearch s' r key (some a) (.searching r key :: (ms' ++ [.searched r key (some a)]))) ∧
    (s.binding? r key = none → ∀ a s' work,
      (∃ ms, Ends closures (·.perform (.get r key)) s a s' ms ∧ ms.OnlyMemoizes ∧ ms.work = work) ↔
        ∃ o ms, Tries closures key s (s.candidates key r) o s' ms ∧ ms.OnlyMemoizes ∧ ms.work = work ∧
          a = o.elim (.error (unregisteredIn s r key)) .ok) := by
  refine ⟨hs.acyclic.candidates_eq key, fun b hb a s' ms => ends_get_iff_of_bound hb, fun hb a s' work => ?_⟩
  constructor
  · rintro ⟨ms, hget, hms, rfl⟩
    obtain ⟨o, ms', ht, hw, ha⟩ := tries_of_get hs hb hget hms
    exact ⟨o, ms', ht, (Trace.onlyMemoizes_congr hw).2 hms, hw, ha⟩
  · rintro ⟨o, ms, ht, hms, rfl, rfl⟩
    obtain ⟨ms', hget, hw⟩ := get_of_tries hs hb ht hms
    exact ⟨ms', hget, (Trace.onlyMemoizes_congr hw).2 hms, hw⟩

end Resolver

/-! ### A parent that is skipped -/

namespace SkippedParent

open Resolver

def near : Registry := ⟨0, "near"⟩

def far : Registry := ⟨1, "far"⟩

def child : Registry := ⟨2, "child"⟩

/-- Every closure fails. -/
def closures : Closures Unit Unit where
  call _ _ := .done (.error (.custom "closed"))
  construct _ _ := .done (.error (.custom "closed"))

def provider : Function Unit := ⟨3, "() => 0", ⟨[]⟩, ()⟩

/-- The last parent of `child` has a provider for the key, the one before it a constant. -/
def store : Store Unit Unit :=
  ((((Store.empty ()).bind near "k" (.provider provider true)).bind far "k" (.constant ⟨4, .unit⟩)).addParent child
    far).addParent child near

theorem reachable_store : store.Reachable := by
  refine ⟨(), .tail (.tail (.tail (.single (.bound _ near "k" _)) (.bound _ far "k" _)) (.extended ?_)) (.extended ?_)⟩
  · decide
  · decide

theorem tries_candidates :
    ∃ ms, Tries closures "k" store [near, far] (some ⟨4, .unit⟩) store ms ∧
      ms.work = [.locked near, .called (.function provider) ⟨none, []⟩,
        .returned (.function provider) (.error (.custom "closed")), .unlocked near] :=
  ⟨_, .failed (b := .provider provider true) rfl ⟨2, rfl⟩ (.found (b := .constant ⟨4, .unit⟩) rfl ⟨0, rfl⟩), rfl⟩

/-- The provider of the last parent fails, and the constant of the parent before it is the result. -/
theorem get_tries_candidates_child :
    store.Reachable ∧ store.binding? child "k" = none ∧
      ∃ ms, Ends closures (·.perform (.get child "k")) store (.ok ⟨4, .unit⟩) store ms ∧
        ms.work = [.locked near, .called (.function provider) ⟨none, []⟩,
          .returned (.function provider) (.error (.custom "closed")), .unlocked near] := by
  obtain ⟨ms, ht, hw⟩ := tries_candidates
  have hms : ms.OnlyMemoizes := by
    rw [← Trace.onlyMemoizes_work, hw]
    simp [Trace.OnlyMemoizes]
  obtain ⟨-, -, htries⟩ := get_tries_candidates closures reachable_store child "k"
  obtain ⟨ms', hget, -, hw'⟩ := (htries rfl _ store ms.work).2 ⟨_, ms, ht, hms, rfl, rfl⟩
  exact ⟨reachable_store, rfl, ms', hget, hw'.trans hw⟩

end SkippedParent

end Injection
