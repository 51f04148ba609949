import Injection.Proofs.Resolver.Rules
import Injection.Proofs.Resolver.Effect

/-!
# What traces tell

Four facts about the trace of every run, whatever the closures do.  Its changes give the bindings that the run leaves
(`Program.binding?_runWithin`).  Its searches nest (`Trace.Nested`).  Without a search for a key nothing happens that
only such a search does (`Trace.Idle`).  A value that a search finds is handed on at once, through the registries that
were searched before it, to the request for the key (`Trace.HandedOn`).
-/

namespace Injection

open Run

variable {γ σ α : Type}

/-! ### Bindings -/

/-- The binding of the key after the change, if it was `old` before. -/
def Change.bindingAfter (r : Registry) (key : String) (old : Option (Binding γ)) : Change γ → Option (Binding γ)
  | .bound q k b => if r = q ∧ key = k then some b else old
  | .unbound q k => if r = q ∧ key = k then none else old
  | .memoized q k v => if r = q ∧ key = k then some (.constant v) else old
  | .extended _ _ => old

def Mark.bindingAfter (r : Registry) (key : String) (old : Option (Binding γ)) : Mark γ → Option (Binding γ)
  | .changed c => c.bindingAfter r key old
  | _ => old

namespace Trace

/-- The binding of the key after all of the trace, if it was `old` before. -/
def bindingAfter (r : Registry) (key : String) (old : Option (Binding γ)) (ms : Trace γ) : Option (Binding γ) :=
  ms.foldl (Mark.bindingAfter r key) old

/-- No change in the trace is one of the binding of the key. -/
def LeavesBinding (r : Registry) (key : String) (ms : Trace γ) : Prop :=
  ∀ m ∈ ms, ∀ old, m.bindingAfter r key old = old

theorem bindingAfter_append (r : Registry) (key : String) (old : Option (Binding γ)) (ms ms' : Trace γ) :
    bindingAfter r key old (ms ++ ms') = bindingAfter r key (bindingAfter r key old ms) ms' :=
  List.foldl_append

theorem LeavesBinding.bindingAfter {r : Registry} {key : String} {ms : Trace γ} (h : ms.LeavesBinding r key)
    (old : Option (Binding γ)) : ms.bindingAfter r key old = old := by
  induction ms with
  | nil => rfl
  | cons m ms ih =>
    obtain ⟨hm, hms⟩ := List.forall_mem_cons.1 h
    unfold Trace.bindingAfter
    rw [List.foldl_cons, hm old]
    exact ih hms

theorem LeavesBinding.bindingAfter_of_isPrefix {r : Registry} {key : String} {a ms : Trace γ}
    (h : ms.LeavesBinding r key) (ha : a <+: ms) (old : Option (Binding γ)) : a.bindingAfter r key old = old :=
  LeavesBinding.bindingAfter (fun m hm => h m (ha.subset hm)) old

end Trace

/-- The changes of the trace account for the bindings of the store. -/
def Effect.bindings (s s' : Store γ σ) (ms : Trace γ) : Prop :=
  ∀ r key, s'.binding? r key = ms.bindingAfter r key (s.binding? r key)

theorem Effect.bindings_law : Effect.Law (Effect.bindings (γ := γ) (σ := σ)) where
  refl _ _ _ := rfl
  trans h h' r key := by rw [h', h, Trace.bindingAfter_append]
  plain _ m hm _ _ := by cases m <;> first | rfl | exact hm.elim
  skip _ _ _ := rfl
  remember _ _ _ _ := rfl
  bind _ _ _ _ _ _ := Store.binding?_bind ..
  unbind _ _ _ _ _ := Store.binding?_unbind ..
  extend _ _ _ := Store.binding?_addParent ..

theorem Effect.bindings_searchLaw (r : Registry) (key : String) :
    Effect.SearchLaw (Effect.bindings (γ := γ) (σ := σ)) r key where
  searching _ _ _ := rfl
  searched _ _ _ _ := rfl
  provided _ _ _ _ _ := rfl
  memoized _ _ _ _ _ := Store.binding?_bind ..

theorem Resolver.level_bindings (closures : Closures γ σ) (n : Nat) : (level closures n).Keep Effect.bindings :=
  Effect.bindings_law.level_keeps_of_searchLaw Effect.bindings_searchLaw closures n

/-- The changes in the trace of a program account for every binding it leaves. -/
theorem Program.binding?_runWithin {closures : Closures γ σ} {p : Program γ σ α} {n : Nat} {s s' : Store γ σ} {x : α}
    {ms : Trace γ} (h : p.runWithin closures n s = some (x, s', ms)) (r : Registry) (key : String) :
    s'.binding? r key = ms.bindingAfter r key (s.binding? r key) :=
  Effect.bindings_law.program (Resolver.level_bindings closures n).perform p h r key

/-! ### Nesting -/

/-- What the mark adds to the number of open searches for the key from the registry on. -/
def Mark.opens (r : Registry) (key : String) : Mark γ → Int
  | .searching q k => if r = q ∧ key = k then 1 else 0
  | .searched q k _ => if r = q ∧ key = k then -1 else 0
  | _ => 0

namespace Trace

/-- How many searches for the key from the registry on begin in the trace and do not end in it. -/
def openSearches (r : Registry) (key : String) : Trace γ → Int
  | [] => 0
  | m :: ms => m.opens r key + openSearches r key ms

@[simp] theorem openSearches_nil (r : Registry) (key : String) : openSearches r key ([] : Trace γ) = 0 := rfl

@[simp] theorem openSearches_cons (r : Registry) (key : String) (m : Mark γ) (ms : Trace γ) :
    openSearches r key (m :: ms) = m.opens r key + openSearches r key ms := rfl

@[simp] theorem openSearches_append (r : Registry) (key : String) (ms ms' : Trace γ) :
    openSearches r key (ms ++ ms') = openSearches r key ms + openSearches r key ms' := by
  induction ms with
  | nil => simp
  | cons m ms ih => rw [List.cons_append, openSearches_cons, openSearches_cons, ih, Int.add_assoc]

/-- Every search ends, and none ends before it begins. -/
structure Nested (r : Registry) (key : String) (ms : Trace γ) : Prop where
  none_open : ms.openSearches r key = 0
  begun : ∀ a : Trace γ, a <+: ms → 0 ≤ a.openSearches r key

namespace Nested

variable {r : Registry} {key : String} {ms ms' : Trace γ}

theorem nil : Nested r key ([] : Trace γ) :=
  ⟨rfl, fun a ha => by simp [List.prefix_nil.1 ha]⟩

theorem append (h : ms.Nested r key) (h' : ms'.Nested r key) : Nested r key (ms ++ ms') := by
  constructor
  · rw [openSearches_append, h.none_open, h'.none_open]
    rfl
  · intro a ha
    rcases List.prefix_or_prefix_of_prefix ha (List.prefix_append ms ms') with hp | ⟨c, rfl⟩
    · exact h.begun a hp
    · rw [openSearches_append, h.none_open, Int.zero_add]
      exact h'.begun c (List.prefix_append_right_inj ms |>.1 ha)

theorem single {m : Mark γ} (hm : m.opens r key = 0) : Nested r key [m] := by
  constructor
  · simp [hm]
  · intro a ha
    rcases List.prefix_cons_iff.1 ha with rfl | ⟨t, rfl, ht⟩
    · exact Int.le_refl 0
    · simp [hm, List.prefix_nil.1 ht]

theorem search (h : ms.Nested r key) (x : Option (Resolved γ)) :
    Nested r key (.searching r key :: (ms ++ [.searched r key x])) := by
  constructor
  · simp [Mark.opens, h.none_open]
  · intro a ha
    rcases List.prefix_cons_iff.1 ha with rfl | ⟨t, rfl, ht⟩
    · exact Int.le_refl 0
    -- inside, one search more is open than in the inner trace
    · simp only [openSearches_cons, Mark.opens, and_self, if_true]
      rcases List.prefix_or_prefix_of_prefix ht (List.prefix_append ms _) with hp | ⟨c, rfl⟩
      · have := h.begun t hp
        omega
      · rw [openSearches_append, h.none_open]
        rcases List.prefix_cons_iff.1 (List.prefix_append_right_inj ms |>.1 ht) with rfl | ⟨u, rfl, hu⟩
        · simp
        · simp [List.prefix_nil.1 hu, Mark.opens]

end Nested

end Trace

/-- Searches for the key from the registry on nest. -/
def Effect.nested (r : Registry) (key : String) (_ _ : Store γ σ) (ms : Trace γ) : Prop :=
  ms.Nested r key

theorem Effect.nested_law (r : Registry) (key : String) :
    Effect.Law (Effect.nested (γ := γ) (σ := σ) r key) where
  refl _ := .nil
  trans h h' := h.append h'
  plain _ m hm := .single (by cases m <;> first | rfl | exact hm.elim)
  skip _ := .nil
  remember _ _ := .nil
  bind _ _ _ _ := .single rfl
  unbind _ _ _ := .single rfl
  extend _ := .single rfl

theorem Effect.nested_providerLaw (r q : Registry) (key k : String) :
    Effect.ProviderLaw (Effect.nested (γ := γ) (σ := σ) r key) q k where
  provided _ _ _ := .single rfl
  memoized _ _ _ := .single rfl

theorem Resolver.level_nested (closures : Closures γ σ) (r : Registry) (key : String) (n : Nat) :
    (level closures n).Keep (Effect.nested r key) := by
  refine (Effect.nested_law r key).level_keeps closures ?_ n
  intro n hn q k s x s' ms h
  obtain ⟨ms', hms, rfl⟩ :=
    (Effect.nested_providerLaw r q key k).searchFrom_inner (Effect.nested_law r key).toActivityLaw hn h
  by_cases hq : r = q ∧ key = k
  · obtain ⟨rfl, rfl⟩ := hq
    exact Trace.Nested.search hms x
  · exact Trace.Nested.append (.single (by simp [Mark.opens, hq]))
      (Trace.Nested.append hms (.single (by simp [Mark.opens, hq])))

/-! ### Idleness -/

/-- Marks of searches for the key from the registry on, and of what only these do. -/
def Mark.IsOfSearch (r : Registry) (key : String) : Mark γ → Prop
  | .searching q k => r = q ∧ key = k
  | .searched q k _ => r = q ∧ key = k
  | .provided q k _ _ => r = q ∧ key = k
  | .changed (.memoized q k _) => r = q ∧ key = k
  | _ => False

/-- Neither does a search for the key from the registry on take part in the trace nor anything that only such a search
does. -/
def Trace.Idle (r : Registry) (key : String) (ms : Trace γ) : Prop :=
  ∀ m ∈ ms, ¬ m.IsOfSearch r key

/-- If no search for the key from the registry on begins, nothing happens that only such a search does. -/
def Effect.idle (r : Registry) (key : String) (_ _ : Store γ σ) (ms : Trace γ) : Prop :=
  .searching r key ∉ ms → ms.Idle r key

theorem Effect.idle_law (r : Registry) (key : String) :
    Effect.Law (Effect.idle (γ := γ) (σ := σ) r key) where
  refl _ _ := by simp [Trace.Idle]
  trans h h' hms := by
    rw [List.mem_append, not_or] at hms
    intro m hm
    rcases List.mem_append.1 hm with hm | hm
    · exact h hms.1 m hm
    · exact h' hms.2 m hm
  plain _ m hm _ := by cases m <;> simp_all [Mark.IsPlain, Trace.Idle, Mark.IsOfSearch]
  skip _ _ := by simp [Trace.Idle]
  remember _ _ _ := by simp [Trace.Idle]
  bind _ _ _ _ _ := by simp [Trace.Idle, Mark.IsOfSearch]
  unbind _ _ _ _ := by simp [Trace.Idle, Mark.IsOfSearch]
  extend _ _ := by simp [Trace.Idle, Mark.IsOfSearch]

theorem Effect.idle_searchLaw {r q : Registry} {key k : String} (h : ¬ (r = q ∧ key = k)) :
    Effect.SearchLaw (Effect.idle (γ := γ) (σ := σ) r key) q k where
  searching _ _ := by simpa [Trace.Idle, Mark.IsOfSearch] using h
  searched _ _ _ := by simpa [Trace.Idle, Mark.IsOfSearch] using h
  provided _ _ _ _ := by simpa [Trace.Idle, Mark.IsOfSearch] using h
  memoized _ _ _ _ := by simpa [Trace.Idle, Mark.IsOfSearch] using h

theorem Resolver.level_idle (closures : Closures γ σ) (r : Registry) (key : String) (n : Nat) :
    (level closures n).Keep (Effect.idle r key) := by
  refine (Effect.idle_law r key).level_keeps closures ?_ n
  intro n hn q k
  by_cases hq : r = q ∧ key = k
  · obtain ⟨rfl, rfl⟩ := hq
    intro s x s' ms h hms
    obtain ⟨ms', -, rfl⟩ := between_eq_some.1 h
    exact absurd List.mem_cons_self hms
  · exact (Effect.idle_searchLaw hq).searchFrom (Effect.idle_law r key).toActivityLaw hn

/-! ### Values on their way -/

/-- Right after a search from the registry on, the value goes to the request for the key or, as the value found in a
parent, to the search that led here, from where it is handed on in turn. -/
inductive Trace.HandedOn (key : String) (v : Value γ) : Registry → Trace γ → Prop
  | requested (q : Registry) (ms : Trace γ) : HandedOn key v q (.left (.get key q.name) :: ms)
  | delegated {d : Registry} {ms : Trace γ} (q : Registry) (h : HandedOn key v d ms) :
    HandedOn key v q (.logged (.foundInParent q.name) :: .searched d key (some (.ok v)) :: ms)

/-- Every value that a search finds is handed on. -/
def Trace.HandsOn (ms : Trace γ) : Prop :=
  ∀ a q key v b, ms = a ++ .searched q key (some (.ok v)) :: b → HandedOn key v q b

namespace Trace.HandsOn

theorem nil : HandsOn ([] : Trace γ) := by
  intro a q key v b h
  simp at h

theorem cons {m : Mark γ} {ms : Trace γ} (hm : ∀ q key v, m = .searched q key (some (.ok v)) → HandedOn key v q ms)
    (h : ms.HandsOn) : HandsOn (m :: ms) := by
  intro a q key v b heq
  cases a with
  | nil =>
    obtain ⟨rfl, rfl⟩ := List.cons.inj heq
    exact hm q key v rfl
  | cons m' a => exact h a q key v b (List.cons.inj heq).2

theorem cons_of_ne {m : Mark γ} {ms : Trace γ} (hm : ∀ q key x, m ≠ .searched q key x) (h : ms.HandsOn) :
    HandsOn (m :: ms) :=
  .cons (fun q key _ heq => absurd heq (hm q key _)) h

end Trace.HandsOn

/-- The values that searches found in the run are handed on if those of what follows are. -/
def Effect.handsOn (_ _ : Store γ σ) (ms : Trace γ) : Prop :=
  ∀ t : Trace γ, t.HandsOn → Trace.HandsOn (ms ++ t)

/-- The same for a search, where what follows has to hand on the value that it found. -/
def Resolver.SearchHandsOn (r : Registry) (key : String) (_ : Store γ σ) (x : Option (Resolved γ)) (_ : Store γ σ)
    (ms : Trace γ) : Prop :=
  ∀ t : Trace γ, (∀ v, x = some (.ok v) → t.HandedOn key v r) → t.HandsOn → Trace.HandsOn (ms ++ t)

private theorem handsOn_single {m : Mark γ} (hm : ∀ q key x, m ≠ .searched q key x) (s s' : Store γ σ) :
    Effect.handsOn s s' [m] :=
  fun _ ht => .cons_of_ne hm ht

theorem Effect.handsOn_law : Effect.Law (Effect.handsOn (γ := γ) (σ := σ)) where
  refl _ _ ht := ht
  trans h h' t ht := by
    rw [List.append_assoc]
    exact h _ (h' t ht)
  plain s m hm := handsOn_single (by rintro q key x rfl; exact hm) s s
  skip _ _ ht := ht
  remember _ _ _ ht := ht
  bind _ _ _ _ := handsOn_single (by simp) _ _
  unbind _ _ _ := handsOn_single (by simp) _ _
  extend _ := handsOn_single (by simp) _ _

theorem Effect.handsOn_providerLaw (r : Registry) (key : String) :
    Effect.ProviderLaw (Effect.handsOn (γ := γ) (σ := σ)) r key where
  provided _ _ _ := handsOn_single (by simp) _ _
  memoized _ _ _ := handsOn_single (by simp) _ _

namespace Resolver

variable {closures : Closures γ σ} {low : Resolver γ σ} (hlow : low.Ensures Effect.handsOn SearchHandsOn)

include hlow

theorem resolveKey_handsOn (r : Registry) (key : String) : (resolveKey low r key).Keeps Effect.handsOn := by
  intro s a s' ms h t ht
  obtain ⟨x, ms', hx, rfl, rfl⟩ := resolveKey_eq_some.1 h
  have hleft : Trace.HandsOn (.left (.get key r.name) :: t) := .cons_of_ne (by simp) ht
  rw [List.cons_append, List.append_assoc, List.append_assoc]
  refine .cons_of_ne (by simp) ?_
  cases x with
  | none => exact hlow.search r key hx _ (by simp) (.cons_of_ne (by simp) hleft)
  | some x => exact hlow.search r key hx _ (fun v _ => .requested r t) hleft

/-- What follows a search through parents starts with the end of the search that led to them. -/
theorem searchParents_handsOn {r : Registry} {key : String} {ps : List Registry} {s s' : Store γ σ}
    {x : Option (Resolved γ)} {ms : Trace γ} (h : searchParents low key ps s = some (x, s', ms)) {t : Trace γ}
    (hv : ∀ v, x = some (.ok v) → t.HandedOn key v r) (ht : t.HandsOn) :
    Trace.HandsOn (ms ++ .searched r key x :: t) := by
  have hend : Trace.HandsOn (.searched r key x :: t) := by
    refine .cons ?_ ht
    rintro q k v heq
    cases heq
    exact hv v rfl
  induction ps generalizing s ms with
  | nil =>
    obtain ⟨rfl, rfl, rfl⟩ := searchParents_nil.1 h
    exact hend
  | cons p ps ih =>
    rcases searchParents_cons.1 h with ⟨v, ms₁, h₁, rfl, rfl⟩ | ⟨e, s₁, ms₁, ms₂, h₁, h₂, rfl⟩ |
      ⟨s₁, ms₁, ms₂, h₁, h₂, rfl⟩
    · rw [List.append_assoc]
      refine hlow.search p key h₁ _ ?_ (.cons_of_ne (by simp) hend)
      intro w hw
      cases hw
      exact .delegated p (hv v rfl)
    · rw [List.append_assoc]
      exact hlow.search p key h₁ _ (by simp) (.cons_of_ne (by simp) (ih h₂))
    · rw [List.append_assoc]
      exact hlow.search p key h₁ _ (by simp) (ih h₂)

theorem searchFrom_handsOn (r : Registry) (key : String) :
    (searchFrom closures low r key).Ensures (SearchHandsOn r key) := by
  intro s x s' ms h t hv ht
  cases hb : s.binding? r key with
  | some b =>
    obtain ⟨a, ms', ha, rfl, rfl⟩ := (searchFrom_of_bound hb).1 h
    have hk := (Effect.handsOn_providerLaw r key).resolveBinding Effect.handsOn_law.toActivityLaw hlow.resolve
      hlow.perform b ha
    rw [List.cons_append, List.append_assoc]
    refine .cons_of_ne (by simp) ?_
    refine hk _ (.cons ?_ ht)
    intro q k v heq
    cases heq
    exact hv v rfl
  | none =>
    obtain ⟨ms', hps, rfl⟩ := (searchFrom_of_unbound hb).1 h
    rw [List.cons_append, List.append_assoc]
    refine .cons_of_ne (by simp) ?_
    exact searchParents_handsOn hlow hps hv ht

end Resolver

theorem Resolver.level_handsOn (closures : Closures γ σ) (n : Nat) :
    (level closures n).Ensures Effect.handsOn SearchHandsOn :=
  Effect.handsOn_law.level_ensures closures (fun _ h => resolveKey_handsOn h) (fun _ h => searchFrom_handsOn h) n

/-- In the run of a program every value that a search finds is handed on. -/
theorem Program.handsOn_runWithin {closures : Closures γ σ} {p : Program γ σ α} {n : Nat} {s s' : Store γ σ} {x : α}
    {ms : Trace γ} (h : p.runWithin closures n s = some (x, s', ms)) : ms.HandsOn := by
  have := Effect.handsOn_law.program (Resolver.level_handsOn closures n).perform p h [] .nil
  rwa [List.append_nil] at this

end Injection
