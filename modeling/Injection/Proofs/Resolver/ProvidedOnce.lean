import Injection.Proofs.Resolver.History

/-!
# Cached providers

A cached provider gives its registry at most one value for each binding.  Until it does, every search that runs it
fails and leaves it bound.  From then on the value is bound in its place, and every search that comes to the registry
finds that value at once, without a call.  Closures may do anything as long as the key is neither bound anew nor
unbound and no search that runs the provider leads back to it.

The main statement is `Program.provides_once`; `Effect.providesOnce` is the invariant behind it.
-/

namespace Injection

open Run

variable {γ σ α : Type}

namespace Trace

/-! ### Before and after the value -/

/-- The key is neither bound nor unbound in the registry. -/
structure NeverRebinds (r : Registry) (key : String) (ms : Trace γ) : Prop where
  bound : ∀ b, .changed (.bound r key b) ∉ ms
  unbound : .changed (.unbound r key) ∉ ms

/-- No search for the key from the registry on begins while another one is open. -/
def OneSearchAtATime (r : Registry) (key : String) (ms : Trace γ) : Prop :=
  ∀ a b : Trace γ, ms = a ++ .searching r key :: b → a.openSearches r key = 0

/-- No value is provided, every search that ends has failed, and the binding stays what it is. -/
structure Unprovided (r : Registry) (key : String) (ms : Trace γ) : Prop where
  provided : ∀ f v, .provided r key f v ∉ ms
  failed : ∀ x, .searched r key x ∈ ms → ∃ e, x = some (.error e)
  kept : ms.LeavesBinding r key

/-- No value is provided, every search finds the given one at once, and the binding stays what it is. -/
structure Answers (r : Registry) (key : String) (v : Value γ) (ms : Trace γ) : Prop where
  provided : ∀ f w, .provided r key f w ∉ ms
  answered : ∀ a b, ms = a ++ .searching r key :: b →
    ∃ c, b = .logged .found :: .searched r key (some (.ok v)) :: c
  kept : ms.LeavesBinding r key

/-- A call of the provider gives its value, which is bound and found. -/
def providing (r : Registry) (key : String) (f : Function γ) (v : Value γ) : Trace γ :=
  [.returned (.function f) (.ok v), .logged .invoked, .left (.invoke r.name), .provided r key f v,
    .changed (.memoized r key v), .logged .memoized, .unlocked r, .searched r key (some (.ok v))]

/-- The provider gave no value and is still bound, or it gave one and that is bound instead. -/
def ProvidesOnce (r : Registry) (key : String) (f : Function γ) (now : Option (Binding γ)) (ms : Trace γ) : Prop :=
  (ms.Unprovided r key ∧ now = some (.provider f true)) ∨
    ∃ v ms₁ ms₂, ms = ms₁ ++ providing r key f v ++ ms₂ ∧ ms₁.Unprovided r key ∧ ms₂.Answers r key v ∧
      now = some (.constant v)

variable {r : Registry} {key : String} {f : Function γ} {v : Value γ} {ms ms' : Trace γ}

theorem neverRebinds_append :
    NeverRebinds r key (ms ++ ms') ↔ ms.NeverRebinds r key ∧ ms'.NeverRebinds r key := by
  constructor
  · intro h
    exact ⟨⟨fun b hb => h.bound b (List.mem_append_left _ hb), fun hu => h.unbound (List.mem_append_left _ hu)⟩,
      ⟨fun b hb => h.bound b (List.mem_append_right _ hb), fun hu => h.unbound (List.mem_append_right _ hu)⟩⟩
  · rintro ⟨h, h'⟩
    exact ⟨fun b hb => (List.mem_append.1 hb).elim (h.bound b) (h'.bound b),
      fun hu => (List.mem_append.1 hu).elim h.unbound h'.unbound⟩

theorem LeavesBinding.append (h : ms.LeavesBinding r key) (h' : ms'.LeavesBinding r key) :
    LeavesBinding r key (ms ++ ms') :=
  fun m hm => (List.mem_append.1 hm).elim (h m) (h' m)

theorem Idle.leavesBinding (h : ms.Idle r key) (hr : ms.NeverRebinds r key) : ms.LeavesBinding r key := by
  intro m hm old
  cases m with
  | changed c =>
    cases c with
    | bound q k b =>
      refine if_neg ?_
      rintro ⟨rfl, rfl⟩
      exact hr.bound b hm
    | unbound q k =>
      refine if_neg ?_
      rintro ⟨rfl, rfl⟩
      exact hr.unbound hm
    | memoized q k v => exact if_neg (h _ hm)
    | extended q p => rfl
  | _ => rfl

namespace OneSearchAtATime

theorem left (h : OneSearchAtATime r key (ms ++ ms')) : ms.OneSearchAtATime r key := by
  rintro a b rfl
  exact h a (b ++ ms') (by simp)

theorem right (h : OneSearchAtATime r key (ms ++ ms')) (hms : ms.Nested r key) : ms'.OneSearchAtATime r key := by
  rintro a b rfl
  have := h (ms ++ a) b (by simp)
  rwa [openSearches_append, hms.none_open, Int.zero_add] at this

/-- What happens inside an open search starts no other. -/
theorem searching_notMem {a b : Trace γ} (h : OneSearchAtATime r key (a ++ ms ++ b)) (ha : a.openSearches r key = 1)
    (hms : ms.Nested r key) : .searching r key ∉ ms := by
  intro hmem
  obtain ⟨c, d, rfl⟩ := List.append_of_mem hmem
  have hopen := h (a ++ c) (d ++ b) (by simp)
  -- up to the search inside, as many are open as at the beginning or more
  have hc := hms.begun c (List.prefix_append ..)
  rw [openSearches_append, ha] at hopen
  omega

end OneSearchAtATime

namespace Unprovided

theorem of_idle (h : ms.Idle r key) (hr : ms.NeverRebinds r key) : ms.Unprovided r key where
  provided _ _ hm := h _ hm ⟨rfl, rfl⟩
  failed _ hm := absurd ⟨rfl, rfl⟩ (h _ hm)
  kept := h.leavesBinding hr

theorem append (h : ms.Unprovided r key) (h' : ms'.Unprovided r key) : Unprovided r key (ms ++ ms') where
  provided f v hm := (List.mem_append.1 hm).elim (h.provided f v) (h'.provided f v)
  failed x hm := (List.mem_append.1 hm).elim (h.failed x) (h'.failed x)
  kept := h.kept.append h'.kept

theorem left (h : Unprovided r key (ms ++ ms')) : ms.Unprovided r key where
  provided f v hm := h.provided f v (List.mem_append_left _ hm)
  failed x hm := h.failed x (List.mem_append_left _ hm)
  kept m hm := h.kept m (List.mem_append_left _ hm)

end Unprovided

namespace Answers

theorem nil : Answers r key v [] :=
  ⟨by simp, by simp, by simp [LeavesBinding]⟩

theorem of_idle (h : ms.Idle r key) (hr : ms.NeverRebinds r key) (v : Value γ) : ms.Answers r key v where
  provided _ _ hm := h _ hm ⟨rfl, rfl⟩
  answered a b hms := absurd ⟨rfl, rfl⟩ (h (.searching r key) (by rw [hms]; simp))
  kept := h.leavesBinding hr

theorem append (h : ms.Answers r key v) (h' : ms'.Answers r key v) : Answers r key v (ms ++ ms') where
  provided f w hm := (List.mem_append.1 hm).elim (h.provided f w) (h'.provided f w)
  answered a b hms := by
    rcases List.append_eq_append_iff.1 hms with ⟨c, rfl, hc⟩ | ⟨c, rfl, hc⟩
    · exact h'.answered c b hc
    · rcases List.cons_eq_append_iff.1 hc with ⟨rfl, hb⟩ | ⟨d, rfl, rfl⟩
      · exact h'.answered [] b hb
      · obtain ⟨e, rfl⟩ := h.answered a d rfl
        exact ⟨e ++ ms', rfl⟩
  kept := h.kept.append h'.kept

end Answers

end Trace

/-! ### The invariant -/

/-- Bound at first, a cached provider provides once.  A constant bound at first answers every search. -/
def Effect.providesOnce (r : Registry) (key : String) (f : Function γ) (s s' : Store γ σ) (ms : Trace γ) : Prop :=
  ms.Nested r key ∧ (ms.NeverRebinds r key → ms.OneSearchAtATime r key →
    (s.binding? r key = some (.provider f true) → ms.ProvidesOnce r key f (s'.binding? r key)) ∧
    ∀ v, s.binding? r key = some (.constant v) → ms.Answers r key v ∧ s'.binding? r key = some (.constant v))

namespace Effect

variable {r q : Registry} {key k : String} {f : Function γ} {s s' : Store γ σ} {ms : Trace γ}

theorem providesOnce_of_idle (hn : ms.Nested r key) (hi : ms.Idle r key) (hb : Effect.bindings s s' ms) :
    Effect.providesOnce r key f s s' ms := by
  refine ⟨hn, fun hr _ => ?_⟩
  rw [hb r key, (hi.leavesBinding hr).bindingAfter]
  exact ⟨fun h => .inl ⟨.of_idle hi hr, h⟩, fun v h => ⟨.of_idle hi hr v, h⟩⟩

theorem providesOnce_trans {s'' : Store γ σ} {ms' : Trace γ} (h : Effect.providesOnce r key f s s' ms)
    (h' : Effect.providesOnce r key f s' s'' ms') : Effect.providesOnce r key f s s'' (ms ++ ms') := by
  obtain ⟨hn, h⟩ := h
  obtain ⟨hn', h'⟩ := h'
  refine ⟨hn.append hn', fun hr ho => ?_⟩
  obtain ⟨hr, hr'⟩ := Trace.neverRebinds_append.1 hr
  obtain ⟨hp, hv⟩ := h hr ho.left
  obtain ⟨hp', hv'⟩ := h' hr' (ho.right hn)
  constructor
  -- the value is given in the second part, in neither or in the first
  · intro hb
    rcases hp hb with ⟨hu, hb'⟩ | ⟨v, ms₁, ms₂, rfl, hu, ha, hb'⟩
    · rcases hp' hb' with ⟨hu', hb''⟩ | ⟨v, ms₁, ms₂, rfl, hu', ha, hb''⟩
      · exact .inl ⟨hu.append hu', hb''⟩
      · exact .inr ⟨v, ms ++ ms₁, ms₂, by simp, hu.append hu', ha, hb''⟩
    · obtain ⟨ha', hb''⟩ := hv' v hb'
      exact .inr ⟨v, ms₁, ms₂ ++ ms', by simp, hu, ha.append ha', hb''⟩
  · intro v hb
    obtain ⟨ha, hb'⟩ := hv v hb
    obtain ⟨ha', hb''⟩ := hv' v hb'
    exact ⟨ha.append ha', hb''⟩

theorem providesOnce_single {m : Mark γ} (hm : m.opens r key = 0) (hi : ¬ m.IsOfSearch r key)
    (hb : Effect.bindings s s' [m]) : Effect.providesOnce r key f s s' [m] :=
  providesOnce_of_idle (.single hm) (List.forall_mem_singleton.2 hi) hb

theorem providesOnce_law (r : Registry) (key : String) (f : Function γ) :
    Effect.Law (Effect.providesOnce (σ := σ) r key f) := by
  have none {s s' : Store γ σ} (hb : Effect.bindings s s' []) : Effect.providesOnce r key f s s' [] :=
    providesOnce_of_idle .nil (by simp [Trace.Idle]) hb
  exact {
    refl := fun s => none (bindings_law.refl s)
    trans := providesOnce_trans
    plain := fun s m hm => providesOnce_single (by cases m <;> first | rfl | exact hm.elim)
      (by cases m <;> first | exact id | exact hm.elim) (bindings_law.plain s hm)
    skip := fun s => none (bindings_law.skip s)
    remember := fun s memory => none (bindings_law.remember s memory)
    bind := fun s r key b => providesOnce_single rfl id (bindings_law.bind s r key b)
    unbind := fun s r key => providesOnce_single rfl id (bindings_law.unbind s r key)
    extend := fun h => providesOnce_single rfl id (bindings_law.extend h) }

theorem providesOnce_searchLaw (h : ¬ (r = q ∧ key = k)) :
    Effect.SearchLaw (Effect.providesOnce (σ := σ) r key f) q k := by
  have law := bindings_searchLaw (γ := γ) (σ := σ) q k
  exact {
    searching := fun s => providesOnce_single (if_neg h) h (law.searching s)
    searched := fun s x => providesOnce_single (if_neg h) h (law.searched s x)
    provided := fun s f v => providesOnce_single rfl h (law.provided s f v)
    memoized := fun hb hg v => providesOnce_single rfl h (law.memoized hb hg v) }

end Effect

namespace Resolver

variable {closures : Closures γ σ} {n : Nat} {r : Registry} {key : String} {f : Function γ} {s s' : Store γ σ}
  {ms : Trace γ}

/-- A call inside an open search for the key takes no part in any search for it, and its changes account for the binding
that it leaves. -/
theorem call_idle_inside_search {g : Function γ} {a : Resolved γ} {t t' : Trace γ}
    (h : call closures (level closures n) r none g s = some (a, s', ms))
    (ho : Trace.OneSearchAtATime r key (t ++ ms ++ t')) (ht : t.openSearches r key = 1) :
    ms.Idle r key ∧ s'.binding? r key = ms.bindingAfter r key (s.binding? r key) := by
  have hnested := level_nested closures r key n
  have hidle := level_idle closures r key n
  have hbindings := level_bindings closures n
  have hn := (Effect.nested_law r key).call hnested.resolve hnested.perform r none g h
  have hi := (Effect.idle_law r key).call hidle.resolve hidle.perform r none g h (ho.searching_notMem ht hn)
  exact ⟨hi, Effect.bindings_law.call hbindings.resolve hbindings.perform r none g h r key⟩

/-- A call inside an open search for the key neither provides a value for it nor changes its binding. -/
theorem call_inside_search {g : Function γ} {a : Resolved γ} {t t' : Trace γ}
    (h : call closures (level closures n) r none g s = some (a, s', ms)) (hr : ms.NeverRebinds r key)
    (ho : Trace.OneSearchAtATime r key (t ++ ms ++ t')) (ht : t.openSearches r key = 1) :
    ms.Unprovided r key ∧ s'.binding? r key = s.binding? r key := by
  obtain ⟨hi, hb⟩ := call_idle_inside_search h ho ht
  refine ⟨.of_idle hi hr, ?_⟩
  rw [hb, (hi.leavesBinding hr).bindingAfter]

private theorem unprovided_opening (r : Registry) (key : String) :
    Trace.Unprovided r key ([.searching r key, .locked r] : Trace γ) :=
  ⟨by simp, by simp, by simp [Trace.LeavesBinding, Mark.bindingAfter]⟩

private theorem unprovided_failing (r : Registry) (key : String) (e : ResolveError) :
    Trace.Unprovided r key ([.unlocked r, .searched r key (some (.error e))] : Trace γ) :=
  ⟨by simp, by simp, by simp [Trace.LeavesBinding, Mark.bindingAfter]⟩

/-- A search that runs the provider fails and leaves it bound, or binds the value that the provider gives. -/
theorem searchFrom_of_provider {x : Option (Resolved γ)} (hb : s.binding? r key = some (.provider f true))
    (h : searchFrom closures (level closures n) r key s = some (x, s', ms)) (hr : ms.NeverRebinds r key)
    (ho : ms.OneSearchAtATime r key) : ms.ProvidesOnce r key f (s'.binding? r key) := by
  obtain ⟨a, ms', ha, rfl, rfl⟩ := (searchFrom_of_bound hb).1 h
  have hopen : Trace.openSearches r key ([.searching r key, .locked r] : Trace γ) = 1 := by
    simp [Mark.opens]
  rcases provideOnce_eq_some.1 ha with ⟨e, ms₁, hc, rfl, rfl⟩ | ⟨v, s₁, ms₁, ms₂, hc, hm, rfl, rfl⟩
  · have hms : Mark.searching r key :: (.locked r :: (ms₁ ++ [.unlocked r]) ++ [.searched r key (some (.error e))]) =
        [.searching r key, .locked r] ++ ms₁ ++ [.unlocked r, .searched r key (some (.error e))] := by
      simp
    rw [hms] at hr ho ⊢
    have hr₁ := (Trace.neverRebinds_append.1 (Trace.neverRebinds_append.1 hr).1).2
    obtain ⟨hu, hb'⟩ := call_inside_search hc hr₁ ho hopen
    exact .inl ⟨((unprovided_opening r key).append hu).append (unprovided_failing r key e), hb'.trans hb⟩
  · have hms : Mark.searching r key :: (.locked r :: (ms₁ ++ .provided r key f v :: ms₂ ++ [.unlocked r]) ++
          [.searched r key (some (.ok v))]) =
        [.searching r key, .locked r] ++ ms₁ ++
          (.provided r key f v :: ms₂ ++ [.unlocked r, .searched r key (some (.ok v))]) := by
      simp
    rw [hms] at hr ho ⊢
    have hr₁ := (Trace.neverRebinds_append.1 (Trace.neverRebinds_append.1 hr).1).2
    obtain ⟨hu, hb'⟩ := call_inside_search hc hr₁ ho hopen
    -- the provider is still bound when it returns, so its value is kept
    rw [memoize_apply (hb'.trans hb) (by simp [Function.same])] at hm
    cases hm
    obtain ⟨ms₃, rfl⟩ := call_ok hc
    refine .inr ⟨v, [.searching r key, .locked r] ++ ms₃, [], ?_, ?_, .nil, ?_⟩
    · simp [Trace.providing]
    · exact (unprovided_opening r key).append hu.left
    · simp [Store.binding?_bind]

/-- A search for a key that is bound to a constant finds it at once. -/
theorem searchFrom_of_constant {low : Resolver γ σ} {v : Value γ} {x : Option (Resolved γ)}
    (hb : s.binding? r key = some (.constant v))
    (h : searchFrom closures low r key s = some (x, s', ms)) :
    ms.Answers r key v ∧ s'.binding? r key = some (.constant v) := by
  obtain ⟨a, ms', ha, rfl, rfl⟩ := (searchFrom_of_bound hb).1 h
  obtain ⟨_, hpure, rfl⟩ := mark_bind_eq_some.1 ha
  cases hpure
  refine ⟨⟨by simp, ?_, by simp [Trace.LeavesBinding, Mark.bindingAfter]⟩, hb⟩
  intro a b hab
  cases a with
  | nil =>
    cases hab
    exact ⟨[], rfl⟩
  | cons m a =>
    obtain ⟨-, hrest⟩ := List.cons.inj (hab.trans (List.cons_append ..))
    have hmem : Mark.searching r key ∈ a ++ .searching r key :: b := by simp
    rw [← hrest] at hmem
    simp at hmem

theorem level_providesOnce (closures : Closures γ σ) (r : Registry) (key : String) (f : Function γ) (n : Nat) :
    (level closures n).Keep (Effect.providesOnce r key f) := by
  refine (Effect.providesOnce_law r key f).level_keeps closures ?_ n
  intro n hn q k
  by_cases hq : r = q ∧ key = k
  · obtain ⟨rfl, rfl⟩ := hq
    intro s x s' ms h
    exact ⟨(level_nested closures r key (n + 1)).search r key h, fun hr ho =>
      ⟨fun hb => searchFrom_of_provider hb h hr ho, fun v hb => searchFrom_of_constant hb h⟩⟩
  · exact (Effect.providesOnce_searchLaw hq).searchFrom (Effect.providesOnce_law r key f).toActivityLaw hn

end Resolver

/-! ### Whole runs -/

theorem Trace.bindingAfter_providing (r : Registry) (key : String) (f : Function γ) (v : Value γ)
    (old : Option (Binding γ)) : (Trace.providing r key f v).bindingAfter r key old = some (.constant v) := by
  simp [providing, bindingAfter, Mark.bindingAfter, Change.bindingAfter]

/-- In a run in which the key stays bound and is searched for by one search at a time, either a cached provider gives
no value, every search for the key fails and leaves the provider bound, or this is so up to one call of it, whose value
is bound from then on and found by every search.  Values that searches find are handed on to those who asked. -/
theorem Program.provides_once {closures : Closures γ σ} {p : Program γ σ α} {n : Nat} {s s' : Store γ σ} {x : α}
    {ms : Trace γ} {r : Registry} {key : String} {f : Function γ} (hb : s.binding? r key = some (.provider f true))
    (h : p.runWithin closures n s = some (x, s', ms)) (hr : ms.NeverRebinds r key)
    (ho : ms.OneSearchAtATime r key) :
    ms.HandsOn ∧ s'.binding? r key = ms.bindingAfter r key (s.binding? r key) ∧
      ((ms.Unprovided r key ∧
          ∀ a : Trace γ, a <+: ms → a.bindingAfter r key (s.binding? r key) = some (.provider f true)) ∨
        ∃ v ms₁ ms₂, ms = ms₁ ++ Trace.providing r key f v ++ ms₂ ∧
          (ms₁.Unprovided r key ∧
            ∀ a : Trace γ, a <+: ms₁ → a.bindingAfter r key (s.binding? r key) = some (.provider f true)) ∧
          ms₂.Answers r key v ∧
            ∀ a : Trace γ, a <+: ms₂ → Trace.bindingAfter r key (s.binding? r key)
              (ms₁ ++ Trace.providing r key f v ++ a) = some (.constant v)) := by
  have hk := (Effect.providesOnce_law r key f).program (Resolver.level_providesOnce closures r key f n).perform p h
  refine ⟨handsOn_runWithin h, binding?_runWithin h r key, ?_⟩
  rcases (hk.2 hr ho).1 hb with ⟨hu, -⟩ | ⟨v, ms₁, ms₂, rfl, hu, ha, -⟩
  · exact .inl ⟨hu, fun a hp => (hu.kept.bindingAfter_of_isPrefix hp _).trans hb⟩
  · have hbefore (a : Trace γ) (hp : a <+: ms₁) : a.bindingAfter r key (s.binding? r key) = some (.provider f true) :=
      (hu.kept.bindingAfter_of_isPrefix hp _).trans hb
    refine .inr ⟨v, ms₁, ms₂, rfl, ⟨hu, hbefore⟩, ha, fun a hp => ?_⟩
    rw [Trace.bindingAfter_append, Trace.bindingAfter_append, Trace.bindingAfter_providing,
      ha.kept.bindingAfter_of_isPrefix hp]

/-! ### A key that is requested twice -/

namespace GotTwice

open Resolver

def near : Registry := ⟨0, "near"⟩

def value : Value Unit := ⟨4, .unit⟩

def provider : Function Unit := ⟨3, "() => 0", ⟨[]⟩, ()⟩

/-- Every function gives the same value. -/
def closures : Closures Unit Unit where
  call _ _ := .done (.ok value)
  construct _ _ := .done (.error (.custom "closed"))

def before : Store Unit Unit :=
  (Store.empty ()).bind near "k" (.provider provider true)

def after : Store Unit Unit :=
  before.bind near "k" (.constant value)

def twice : Program Unit Unit (Resolved Unit) :=
  .ask (.get near "k") fun _ => .request (.get near "k")

theorem binding?_before : before.binding? near "k" = some (.provider provider true) := by
  simp [before, Store.binding?_bind]

theorem binding?_after : after.binding? near "k" = some (.constant value) := by
  simp [after, Store.binding?_bind]

/-- The trace of a request for the key, around that of its search. -/
def request (ms : Trace Unit) : Trace Unit :=
  .began .get :: .entered (.get "k" "near") :: (ms ++ [.left (.get "k" "near"), .ended .get none])

theorem perform_get {n : Nat} {s s' : Store Unit Unit} {ms : Trace Unit}
    (h : (level closures n).search near "k" s = some (some (.ok value), s', ms)) :
    (level closures (n + 2)).perform (.get near "k") s = some (.ok value, s', request ms) := by
  have hresolve : (level closures (n + 1)).resolve near "k" s = some (.ok value, s', _) :=
    resolveKey_eq_some.2 ⟨_, _, h, rfl, rfl⟩
  have hget : performWith closures (level closures (n + 1)) (.get near "k") s = some (.ok value, s', request ms) :=
    performWith_get_eq_some.2 ⟨_, hresolve, by simp [request, missed, reportOf, Run.failure, near]⟩
  exact hget

theorem run_twice :
    twice.runWithin closures 3 before = some (.ok value, after,
      request ([.searching near "k", .locked near, .entered (.invoke "near"),
          .called (.function provider) ⟨none, []⟩] ++ Trace.providing near "k" provider value) ++
        (request [.searching near "k", .logged .found, .searched near "k" (some (.ok value))] ++ [])) := by
  have hcall : call closures (level closures 0) near none provider before = some (.ok value, before, _) := rfl
  have hfirst : (level closures 1).search near "k" before = some (some (.ok value), after, _) :=
    (searchFrom_of_bound binding?_before).2 ⟨_, _, provideOnce_eq_some.2
      (.inr ⟨_, _, _, _, hcall, memoize_apply binding?_before rfl value, rfl, rfl⟩), rfl, rfl⟩
  have hsecond : (level closures 1).search near "k" after = some (some (.ok value), after, _) :=
    (searchFrom_of_bound binding?_after).2 ⟨_, _, rfl, rfl, rfl⟩
  exact bind_eq_some.2 ⟨_, _, _, _, _, _, perform_get hfirst,
    bind_eq_some.2 ⟨_, _, _, _, _, _, perform_get hsecond, rfl, rfl⟩, rfl⟩

private theorem oneSearchAtATime_iff {r : Registry} {key : String} {ms : Trace γ} :
    ms.OneSearchAtATime r key ↔
      ∀ a b : Trace γ, ms = a ++ .searching r key :: b → 0 + a.openSearches r key = 0 := by
  simp only [Trace.OneSearchAtATime, Int.zero_add]

/-- Whether searches are open where others begin, one mark at a time. -/
private theorem searching_cons {r : Registry} {key : String} {d : Int} {m : Mark γ} {ms : Trace γ} :
    (∀ a b : Trace γ, m :: ms = a ++ .searching r key :: b → d + a.openSearches r key = 0) ↔
      (m = .searching r key → d = 0) ∧
        ∀ a b : Trace γ, ms = a ++ .searching r key :: b → d + m.opens r key + a.openSearches r key = 0 := by
  constructor
  · intro h
    refine ⟨fun hm => by simpa using h [] ms (by rw [hm]; rfl), fun a b hms => ?_⟩
    simpa [Int.add_assoc] using h (m :: a) b (by rw [hms]; rfl)
  · rintro ⟨hm, h⟩ a b hab
    cases a with
    | nil => simpa using hm (List.cons.inj hab).1
    | cons m' a =>
      obtain ⟨rfl, hms⟩ := List.cons.inj hab
      simpa [Int.add_assoc] using h a b hms

theorem provides_once_twice :
    before.binding? near "k" = some (.provider provider true) ∧
      ∃ ms, twice.runWithin closures 3 before = some (.ok value, after, ms) ∧ ms.NeverRebinds near "k" ∧
        ms.OneSearchAtATime near "k" ∧ ms.HandsOn ∧
          ∃ v ms₁ ms₂, ms = ms₁ ++ Trace.providing near "k" provider v ++ ms₂ ∧ ms₁.Unprovided near "k" ∧
            ms₂.Answers near "k" v := by
  refine ⟨binding?_before, _, run_twice, ?_⟩
  generalize hms : request _ ++ _ = ms
  have hr : ms.NeverRebinds near "k" := by
    subst hms
    constructor <;> simp [request, Trace.providing]
  have ho : ms.OneSearchAtATime near "k" := by
    subst hms
    rw [oneSearchAtATime_iff]
    simp only [request, Trace.providing, List.cons_append, List.nil_append, searching_cons]
    simp [Mark.opens]
  have hmain := Program.provides_once binding?_before (hms ▸ run_twice) hr ho
  obtain ⟨hh, -, ⟨hu, -⟩ | ⟨v, ms₁, ms₂, heq, ⟨hu, -⟩, ha, -⟩⟩ := hmain
  · refine absurd ?_ (hu.provided provider value)
    simp [← hms, Trace.providing, request]
  · exact ⟨hr, ho, hh, v, ms₁, ms₂, heq, hu, ha⟩

end GotTwice

end Injection
