import Injection.Proofs.Resolver.Visiting

/-!
# What a lookup changes

Where closures leave registries alone, a lookup changes nothing but memoizes, whether it succeeds or fails: a binding
that is not what it was before was a cached provider, which gave its value for that key during the lookup, and is the
constant of that value now.  Conversely the value that a cached provider gave is bound in the end, whatever failed
later (`lookup_only_memoizes`).

The invariant is `Store.Memoized`, which composes: a constant is never replaced, and a provider that gives a value is
bound to its key both before and when it has given it (`Resolves.keeps_callee`).
-/

namespace Injection

open Run Relation

variable {γ σ : Type}

/-! ### Memoized stores -/

namespace Trace

/-- The function returned the value when it was run as the provider of the key in the registry. -/
def Gives (r : Registry) (key : String) (f : Function γ) (v : Value γ) (ms : Trace γ) : Prop :=
  ∃ ms₁ ms₂, ms = ms₁ ++ [.returned (.function f) (.ok v), .logged .invoked, .left (.invoke r.name),
    .provided r key f v] ++ ms₂

variable {r : Registry} {key : String} {f : Function γ} {v : Value γ} {ms ms' : Trace γ}

theorem Gives.append_right (h : ms.Gives r key f v) (ms' : Trace γ) : Gives r key f v (ms ++ ms') := by
  obtain ⟨ms₁, ms₂, rfl⟩ := h
  exact ⟨ms₁, ms₂ ++ ms', by simp⟩

theorem Gives.append_left (h : ms'.Gives r key f v) (ms : Trace γ) : Gives r key f v (ms ++ ms') := by
  obtain ⟨ms₁, ms₂, rfl⟩ := h
  exact ⟨ms ++ ms₁, ms₂, by simp⟩

/-- No provider gave a value. -/
def ProvidesNothing (ms : Trace γ) : Prop :=
  ∀ r key f v, Mark.provided r key f v ∉ ms

@[simp] theorem providesNothing_nil : ProvidesNothing ([] : Trace γ) :=
  fun _ _ _ _ h => absurd h List.not_mem_nil

@[simp] theorem providesNothing_cons {m : Mark γ} :
    ProvidesNothing (m :: ms) ↔ (∀ r key f v, m ≠ .provided r key f v) ∧ ms.ProvidesNothing := by
  simp only [ProvidesNothing, List.mem_cons, not_or, ne_comm (a := m)]
  exact ⟨fun h => ⟨fun r key f v => (h r key f v).1, fun r key f v => (h r key f v).2⟩,
    fun h r key f v => ⟨h.1 r key f v, h.2 r key f v⟩⟩

theorem providesNothing_of_work (h : ms.work = []) : ms.ProvidesNothing :=
  fun _ _ _ _ => notMem_of_work h rfl

end Trace

namespace Store

variable {s s' s'' : Store γ σ} {ms ms' : Trace γ} {r : Registry} {key : String} {f : Function γ} {v : Value γ}

/-- Exactly the cached providers that gave a value in the trace have become constants, of these values. -/
structure Memoized (s : Store γ σ) (ms : Trace γ) (s' : Store γ σ) : Prop where
  parents : ∀ r, s'.parents r = s.parents r
  changed : ∀ r key, s'.binding? r key = s.binding? r key ∨
    ∃ f v, s.binding? r key = some (.provider f true) ∧ s'.binding? r key = some (.constant v) ∧ ms.Gives r key f v
  provided : ∀ r key f v, .provided r key f v ∈ ms →
    ∃ cached, s.binding? r key = some (.provider f cached) ∧ (cached = true → s'.binding? r key = some (.constant v))

namespace Memoized

theorem of_registries (h : s'.registries = s.registries) (hms : ms.ProvidesNothing) : s.Memoized ms s' where
  parents := parents_of_registries h
  changed r key := .inl (binding?_of_registries h r key)
  provided r key f v hv := absurd hv (hms r key f v)

theorem refl (s : Store γ σ) (hms : ms.ProvidesNothing) : s.Memoized ms s :=
  of_registries rfl hms

/-- A constant stays, so what the first part memoized is there in the end, and what the second part provides was bound
from the beginning. -/
theorem trans (h : s.Memoized ms s') (h' : s'.Memoized ms' s'') : s.Memoized (ms ++ ms') s'' := by
  constructor
  case parents => exact fun r => (h'.parents r).trans (h.parents r)
  case changed =>
    intro r key
    rcases h.changed r key with heq | ⟨f, v, hf, hv, hgives⟩
    · rcases h'.changed r key with heq' | ⟨f, v, hf, hv, hgives⟩
      · exact .inl (heq'.trans heq)
      · exact .inr ⟨f, v, heq ▸ hf, hv, hgives.append_left ms⟩
    · rcases h'.changed r key with heq' | ⟨g, w, hg, -⟩
      · exact .inr ⟨f, v, hf, heq' ▸ hv, hgives.append_right ms'⟩
      · rw [hv] at hg
        cases hg
  case provided =>
    intro r key f v hmem
    rcases List.mem_append.1 hmem with hmem | hmem
    · obtain ⟨cached, hf, hkept⟩ := h.provided r key f v hmem
      refine ⟨cached, hf, fun hcached => ?_⟩
      have hv := hkept hcached
      rcases h'.changed r key with heq' | ⟨g, w, hg, -⟩
      · rw [heq', hv]
      · rw [hv] at hg
        cases hg
    · obtain ⟨cached, hf, hkept⟩ := h'.provided r key f v hmem
      rcases h.changed r key with heq | ⟨g, w, -, hw, -⟩
      · exact ⟨cached, heq ▸ hf, hkept⟩
      · rw [hw] at hf
        cases hf

theorem after (h : s.Memoized ms s') (hms : ms'.ProvidesNothing) : s.Memoized (ms ++ ms') s' :=
  h.trans (.refl s' hms)

theorem before (h : s.Memoized ms s') {m : Mark γ} (hm : Trace.ProvidesNothing [m]) : s.Memoized (m :: ms) s' :=
  (refl s hm).trans h

/-- A provider that is not cached has given a value. -/
theorem provide (h : s.Memoized ms s') (hb : s.binding? r key = some (.provider f false)) (v : Value γ) :
    s.Memoized (ms ++ [.provided r key f v]) s' := by
  constructor
  case parents => exact h.parents
  case changed =>
    intro q k
    rcases h.changed q k with heq | ⟨g, w, hg, hw, hgives⟩
    · exact .inl heq
    · exact .inr ⟨g, w, hg, hw, hgives.append_right _⟩
  case provided =>
    intro q k g w hmem
    rcases List.mem_append.1 hmem with hmem | hmem
    · exact h.provided q k g w hmem
    · cases List.mem_singleton.1 hmem
      exact ⟨false, hb, nofun⟩

/-- A cached provider has given a value, which takes its place. -/
theorem keep (h : s.Memoized ms s') (hb : s.binding? r key = some (.provider f true))
    (hb' : s'.binding? r key = some (.provider f true))
    (hv : ∃ ms₀, ms = ms₀ ++ [.returned (.function f) (.ok v), .logged .invoked, .left (.invoke r.name)]) :
    s.Memoized (ms ++ [.provided r key f v]) (s'.bind r key (.constant v)) := by
  constructor
  case parents => exact fun q => (parents_bind ..).trans (h.parents q)
  case changed =>
    intro q k
    rw [binding?_bind]
    by_cases hq : q = r ∧ k = key
    · obtain ⟨rfl, rfl⟩ := hq
      obtain ⟨ms₀, rfl⟩ := hv
      rw [if_pos ⟨rfl, rfl⟩]
      exact .inr ⟨f, v, hb, rfl, ms₀, [], by simp⟩
    · rw [if_neg hq]
      rcases h.changed q k with heq | ⟨g, w, hg, hw, hgives⟩
      · exact .inl heq
      · exact .inr ⟨g, w, hg, hw, hgives.append_right _⟩
  case provided =>
    intro q k g w hmem
    rw [binding?_bind]
    rcases List.mem_append.1 hmem with hmem | hmem
    · obtain ⟨cached, hg, hkept⟩ := h.provided q k g w hmem
      refine ⟨cached, hg, fun hcached => ?_⟩
      by_cases hq : q = r ∧ k = key
      · obtain ⟨rfl, rfl⟩ := hq
        rw [hkept hcached] at hb'
        cases hb'
      · rw [if_neg hq]
        exact hkept hcached
    · cases List.mem_singleton.1 hmem
      exact ⟨true, hb, fun _ => if_pos ⟨rfl, rfl⟩⟩

end Memoized

end Store

/-! ### Lookups memoize -/

namespace Resolver

variable {closures : Closures γ σ} {s s' : Store γ σ} {ms : Trace γ} {r : Registry}

/-- What a provider's call leaves at the end of its trace. -/
theorem Resolves.call_ok {receiver : Option (Value γ)} {f : Function γ} {v : Value γ}
    (h : Resolves closures (.meet r (.run receiver (.function f))) s (.ok v) s' ms) :
    ∃ ms₀, ms = ms₀ ++ [.returned (.function f) (.ok v), .logged .invoked, .left (.invoke r.name)] := by
  obtain ⟨n, h⟩ := h.ends
  exact Resolver.call_ok h

theorem Resolves.memoized (hclosures : closures.Detached) (hs : s.Acyclic) {g : Goal γ} {a : g.Answer}
    (h : Resolves closures g s a s' ms) (hg : g.Posed s) : s.Memoized ms s' := by
  have later {g : Goal γ} {s₀ s₁ : Store γ σ} {a : g.Answer} {ms : Trace γ} (h : Resolves closures g s₀ a s₁ ms)
      (hs : s₀.Acyclic) : s₁.Acyclic := (h.settles_of_detached hclosures).acyclic hs
  induction h with
  | @key r key s s' x ms _ ih =>
    have hx : (Resolver.missed s' r key x).ProvidesNothing := by cases x <;> simp [Resolver.missed]
    exact (((ih hs trivial).after hx).after (by simp)).before (by simp)
  | other => exact .refl _ (by simp)
  | unresolved _ ih => exact ((ih hs trivial).after (by simp)).before (by simp)
  | @run r receiver c s s₁ s' vs x ms ms' _ hx ih =>
    obtain ⟨n, hx⟩ := hx
    have hrun := runCallee_detached hclosures n c (c.arguments receiver vs)
    have hms' : ms'.ProvidesNothing := fun _ _ _ _ hv => hrun.marks hx _ hv
    exact (((ih hs trivial).trans (.of_registries (hrun.registries hx) hms')).after (by simp)).before (by simp)
  | bound hb _ ih => exact ((ih hs hb).after (by simp)).before (by simp)
  | inherited _ _ ih => exact ((ih hs trivial).after (by simp)).before (by simp)
  | exhausted => exact .refl _ (by simp)
  | found _ ih => exact (ih hs trivial).after (by simp)
  | failed hp _ ih ihrest => exact (ih hs trivial).trans ((ihrest (later hp hs) trivial).before (by simp))
  | absent hp _ ih ihrest => exact (ih hs trivial).trans (ihrest (later hp hs) trivial)
  | value => exact .refl _ (by simp)
  | transient _ ih => exact ih hs trivial
  | @unprovided r _ _ cached _ _ _ _ _ ih =>
    cases cached with
    | false => exact ih hs trivial
    | true => exact ((ih hs trivial).after (by simp)).before (by simp)
  | provided _ ih => exact (ih hs trivial).provide hg _
  | @kept r key f s s₁ s' v ms ms' hf hm ih =>
    have hb : s₁.binding? r key = some (.provider f true) := (hf.keeps_callee hclosures hs hg rfl).trans hg
    have hsame : f.same f = true := by simp [Function.same]
    rw [memoize_apply hb hsame] at hm
    cases hm
    have hkept : s.Memoized (ms ++ [.provided r key f v] ++ [.changed (.memoized r key v), .logged .memoized,
        .unlocked r]) (s₁.bind r key (.constant v)) := ((ih hs trivial).keep hg hb hf.call_ok).after (by simp)
    rw [List.append_assoc] at hkept
    exact Store.Memoized.before (by simpa using hkept) (by simp)
  | nil => exact .refl _ (by simp)
  | cons hfirst _ ih ihrest => exact (ih hs trivial).trans (ihrest (later hfirst hs) trivial)
  | stopped _ ih => exact ih hs trivial

/-- Only the registry that is asked and those it inherits from can change. -/
theorem Resolves.unchanged_elsewhere (hclosures : closures.Detached) {d : Demand γ} {a : Resolved γ}
    (h : Resolves closures (.meet r d) s a s' ms) {p : Registry} {key : String} (hp : ¬ ReflTransGen s.IsParent r p) :
    s'.binding? p key = s.binding? p key := by
  refine h.unchanged_outside hclosures trivial (s.chain_closed r) ?_ hp
  cases d with
  | key key => exact .refl
  | run receiver c => exact fun _ _ => .refl
  | other t => trivial

end Resolver

/-- All that has happened to registries is that cached providers of the registry asked, and of those it inherits from,
have become constants of the values that they gave for their keys, and each that gave a value has. -/
structure Store.OnlyMemoized (s : Store γ σ) (r : Registry) (ms : Trace γ) (s' : Store γ σ) : Prop where
  parents : ∀ p, s'.parents p = s.parents p
  keys : ∀ p key, (s'.binding? p key).isSome = (s.binding? p key).isSome
  changed : ∀ p key, s'.binding? p key = s.binding? p key ∨
    ∃ f v, s.binding? p key = some (.provider f true) ∧ s'.binding? p key = some (.constant v) ∧ ms.Gives p key f v
  within : ∀ p key, s'.binding? p key ≠ s.binding? p key → ReflTransGen s.IsParent r p
  provided : ∀ p key f v, .provided p key f v ∈ ms →
    ∃ cached, s.binding? p key = some (.provider f cached) ∧ (cached = true → s'.binding? p key = some (.constant v))

/-- A lookup changes nothing but memoizes, and so does an attempt to bind what a lookup gives if it fails. -/
theorem lookup_only_memoizes {closures : Closures γ σ} (hclosures : closures.Detached) {s : Store γ σ}
    (hs : s.Reachable) {q : Request γ σ} {r : Registry} {d : Demand γ} (hq : q.demand? = some (r, d)) {a : q.Answer}
    {s' : Store γ σ} {ms : Trace γ} (hfails : q.Binds → (q.error? a).isSome)
    (h : Resolver.Ends closures (·.perform q) s a s' ms) : s.OnlyMemoized r ms s' := by
  obtain ⟨x, s₁, ms₁, ms₂, hmeet, hconclude, rfl⟩ := (Resolver.ends_perform_iff_of_demand hq).1 h
  obtain ⟨rfl, hwork⟩ := Resolver.conclude_unbound hconclude hfails
  have hmemoized : s.Memoized (.began q.name :: (ms₁ ++ ms₂)) s' :=
    ((hmeet.memoized hclosures hs.acyclic trivial).after (Trace.providesNothing_of_work hwork)).before (by simp)
  constructor
  case parents => exact hmemoized.parents
  case keys => exact (hmeet.settles_of_detached hclosures).sameShape.bound
  case changed => exact hmemoized.changed
  case within =>
    intro p key hne
    by_contra hp
    exact hne (hmeet.unchanged_elsewhere hclosures hp)
  case provided => exact hmemoized.provided

/-! ### A lookup that fails after a value was kept -/

namespace FailsLater

open Resolver

def only : Registry := ⟨0, "only"⟩

def first : Function Unit := ⟨1, "() => 0", ⟨[]⟩, ()⟩

def second : Function Unit := ⟨2, "(first, missing) => 0", ⟨[⟨"first", none⟩, ⟨"missing", none⟩]⟩, ()⟩

/-- Every closure makes a new instance. -/
def closures : Closures Unit Unit where
  call _ _ := .ask (.newValue .unit) fun v => .done (.ok v)
  construct _ _ := .done (.ok .unit)

theorem detached_closures : closures.Detached where
  call _ _ := ⟨trivial, fun _ => trivial⟩
  construct _ _ := trivial

def store : Store Unit Unit :=
  ((Store.empty ()).bind only "first" (.provider first true)).bind only "second" (.provider second true)

theorem reachable_store : store.Reachable :=
  ⟨(), .tail (.single (.bound _ only "first" _)) (.bound _ only "second" _)⟩

theorem binding?_store (key : String) : store.binding? only key =
    if key = "second" then some (.provider second true)
    else if key = "first" then some (.provider first true)
    else none := by
  simp only [store, Store.binding?_bind, true_and]
  rfl

/-- The store that the failing lookup leaves. -/
def left : Store Unit Unit :=
  store.skip.bind only "first" (.constant ⟨0, .unit⟩)

/-- The first parameter of the second provider is resolved. -/
theorem resolves_first : ∃ ms, Resolves closures (.meet only (.key "first")) store (.ok ⟨0, .unit⟩) left ms ∧
    .provided only "first" first ⟨0, .unit⟩ ∈ ms := by
  have hb : store.binding? only "first" = some (.provider first true) := by simp [binding?_store]
  have hcall : Resolves closures (.meet only (.run none (.function first))) store (.ok ⟨0, .unit⟩) store.skip _ :=
    .run (x := .ok ⟨0, .unit⟩) (.nil only store) ⟨1, rfl⟩
  have hkept := memoize_apply (f := first) (s := store.skip) hb rfl ⟨0, .unit⟩
  exact ⟨_, .key (.bound hb (.kept hcall hkept)), by simp⟩

/-- The second one is not found. -/
theorem resolves_missing : ∃ ms, Resolves closures (.meet only (.key "missing")) left
    (.error (.unregistered "missing" "only" "")) left ms := by
  have hb : left.binding? only "missing" = none := by
    simp [left, Store.binding?_bind, binding?_store]
  exact ⟨_, .key (.inherited hb (.exhausted "missing" left))⟩

theorem get_second : ∃ ms, Ends closures (·.perform (.get only "second")) store
    (.error (.unregistered "missing" "only" "")) left ms ∧ .provided only "first" first ⟨0, .unit⟩ ∈ ms := by
  have hb : store.binding? only "second" = some (.provider second true) := by simp [binding?_store]
  obtain ⟨ms₁, hfirst, hmem⟩ := resolves_first
  obtain ⟨ms₂, hmissing⟩ := resolves_missing
  have hall : Resolves closures (.all only ["first", "missing"]) store _ left (ms₁ ++ ms₂) :=
    .cons (x := .error (.unregistered "missing" "only" "")) hfirst (.stopped hmissing)
  have hget :
      Resolves closures (.meet only (.key "second")) store (.error (.unregistered "missing" "only" "")) left _ :=
    .key (.bound hb (.unprovided (.unresolved hall)))
  refine ⟨_, (ends_perform_iff_of_demand rfl).2 ⟨_, left, _, _, hget, rfl, rfl⟩, ?_⟩
  simp [locking, hmem]

/-- The second parameter is missing, and the value of the first one stays. -/
theorem lookup_only_memoizes_failsLater :
    closures.Detached ∧ store.Reachable ∧
      ∃ ms, Ends closures (·.perform (.get only "second")) store (.error (.unregistered "missing" "only" "")) left ms ∧
        left.binding? only "first" = some (.constant ⟨0, .unit⟩) := by
  obtain ⟨ms, hget, hmem⟩ := get_second
  have hmain := lookup_only_memoizes (q := .get only "second") detached_closures reachable_store rfl nofun hget
  obtain ⟨cached, hb, hkept⟩ := hmain.provided _ _ _ _ hmem
  have hcached : cached = true := by
    simp only [binding?_store] at hb
    cases hb
    rfl
  exact ⟨detached_closures, reachable_store, ms, hget, hkept hcached⟩

end FailsLater

end Injection
