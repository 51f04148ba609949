import Injection.Resolver.Bound

/-!
# What the rules of resolution do

One statement for each rule: in which ways it can end, over any lower level, with what it leaves and its whole
trace.  Proofs about runs take the rules apart with these and unfold none of them.

`Ends` speaks of a rule over all levels at once: it ends so over some level, hence over every higher one.
-/

namespace Injection

open Run

variable {γ σ α : Type}

namespace Resolver

variable {closures : Closures γ σ} {low : Resolver γ σ} {s s' : Store γ σ} {ms : Trace γ}

/-! ### Ending over some level -/

/-- Over a level that performs enough, the rule ends so. -/
def Ends (closures : Closures γ σ) (rule : Resolver γ σ → Run γ σ α) (s : Store γ σ) (a : α) (s' : Store γ σ)
    (ms : Trace γ) : Prop :=
  ∃ n, rule (level closures n) s = some (a, s', ms)

/-- A step that every level takes by a rule over the level below ends as the rule does. -/
private theorem ends_iff_of_level {step rule : Resolver γ σ → Run γ σ α} {a : α}
    (hzero : step (level closures 0) = outOfBound)
    (hsucc : ∀ n, step (level closures (n + 1)) = rule (level closures n)) :
    Ends closures step s a s' ms ↔ Ends closures rule s a s' ms := by
  constructor
  · rintro ⟨n, h⟩
    cases n with
    | zero =>
      rw [hzero] at h
      exact absurd h outOfBound_ne_some
    | succ n =>
      rw [hsucc] at h
      exact ⟨n, h⟩
  · rintro ⟨n, h⟩
    exact ⟨n + 1, by rwa [hsucc]⟩

theorem ends_search_iff {r : Registry} {key : String} {x : Option (Resolved γ)} :
    Ends closures (·.search r key) s x s' ms ↔ Ends closures (searchFrom closures · r key) s x s' ms :=
  ends_iff_of_level rfl fun _ => rfl

theorem ends_resolve_iff {r : Registry} {key : String} {a : Resolved γ} :
    Ends closures (·.resolve r key) s a s' ms ↔ Ends closures (resolveKey · r key) s a s' ms :=
  ends_iff_of_level rfl fun _ => rfl

theorem ends_perform_iff {q : Request γ σ} {a : q.Answer} :
    Ends closures (·.perform q) s a s' ms ↔ Ends closures (performWith closures · q) s a s' ms :=
  ends_iff_of_level rfl fun _ => rfl

/-! ### Keys -/

/-- The error of a key that a search does not find. -/
def unregisteredIn (s : Store γ σ) (r : Registry) (key : String) : ResolveError :=
  .unregistered key r.name (s.ancestors r)

/-- What is logged if a search finds nothing. -/
def missed (s : Store γ σ) (r : Registry) (key : String) : Option (Resolved γ) → Trace γ
  | none => [.logged (.failed (unregisteredIn s r key).message)]
  | some _ => []

theorem resolveKey_eq_some {r : Registry} {key : String} {a : Resolved γ} :
    resolveKey low r key s = some (a, s', ms) ↔
      ∃ x ms', low.search r key s = some (x, s', ms') ∧ a = x.getD (.error (unregisteredIn s' r key)) ∧
        ms = .entered (.get key r.name) :: (ms' ++ missed s' r key x ++ [.left (.get key r.name)]) := by
  unfold resolveKey inside
  rw [between_eq_some]
  constructor
  · rintro ⟨ms', h, rfl⟩
    obtain ⟨x, s₁, ms₁, b, s₂, ms₂, h₁, h₂, heq⟩ := bind_eq_some.1 h
    cases heq
    cases x with
    | none =>
      cases h₂
      exact ⟨none, ms₁, h₁, rfl, rfl⟩
    | some x =>
      cases h₂
      exact ⟨some a, ms₁, h₁, rfl, rfl⟩
  · rintro ⟨x, ms', h, rfl, rfl⟩
    refine ⟨_, bind_eq_some.2 ⟨x, s', ms', _, s', missed s' r key x, h, ?_, rfl⟩, rfl⟩
    cases x <;> rfl

theorem searchFrom_of_bound {r : Registry} {key : String} {b : Binding γ} (hb : s.binding? r key = some b)
    {x : Option (Resolved γ)} :
    searchFrom closures low r key s = some (x, s', ms) ↔
      ∃ a ms', resolveBinding closures low r key b s = some (a, s', ms') ∧ x = some a ∧
        ms = .searching r key :: (ms' ++ [.searched r key (some a)]) := by
  unfold searchFrom
  rw [between_eq_some]
  simp only [read_bind_apply, hb]
  constructor
  · rintro ⟨ms', h, rfl⟩
    obtain ⟨a, s₁, ms₁, y, s₂, ms₂, h₁, h₂, heq⟩ := bind_eq_some.1 h
    cases heq
    cases h₂
    exact ⟨a, ms₁, h₁, rfl, by rw [List.append_nil]⟩
  · rintro ⟨a, ms', h, rfl, rfl⟩
    exact ⟨ms', bind_eq_some.2 ⟨a, s', ms', some a, s', [], h, rfl, by rw [List.append_nil]⟩, rfl⟩

theorem searchFrom_of_unbound {r : Registry} {key : String} (hb : s.binding? r key = none)
    {x : Option (Resolved γ)} :
    searchFrom closures low r key s = some (x, s', ms) ↔
      ∃ ms', searchParents low key (s.parents r).reverse s = some (x, s', ms') ∧
        ms = .searching r key :: (ms' ++ [.searched r key x]) := by
  unfold searchFrom
  rw [between_eq_some]
  simp only [read_bind_apply, hb]

theorem searchParents_nil {key : String} {x : Option (Resolved γ)} :
    searchParents low key [] s = some (x, s', ms) ↔ x = none ∧ s' = s ∧ ms = [] := by
  unfold searchParents
  rw [pure_eq_some]
  simp

/-- The first parent gives a value, fails and is skipped, or finds nothing. -/
theorem searchParents_cons {key : String} {p : Registry} {ps : List Registry} {x : Option (Resolved γ)} :
    searchParents low key (p :: ps) s = some (x, s', ms) ↔
      (∃ v ms', low.search p key s = some (some (.ok v), s', ms') ∧ x = some (.ok v) ∧
        ms = ms' ++ [.logged (.foundInParent p.name)]) ∨
      (∃ e s₁ ms₁ ms₂, low.search p key s = some (some (.error e), s₁, ms₁) ∧
        searchParents low key ps s₁ = some (x, s', ms₂) ∧
        ms = ms₁ ++ .logged (.parentFailed p.name e.message) :: ms₂) ∨
      (∃ s₁ ms₁ ms₂, low.search p key s = some (none, s₁, ms₁) ∧
        searchParents low key ps s₁ = some (x, s', ms₂) ∧ ms = ms₁ ++ ms₂) := by
  rw [searchParents, bind_eq_some]
  constructor
  · rintro ⟨y, s₁, ms₁, z, s₂, ms₂, h₁, h₂, heq⟩
    cases heq
    rcases y with _ | e | v
    · exact .inr (.inr ⟨s₁, ms₁, ms₂, h₁, h₂, rfl⟩)
    · simp only [log, mark_bind_eq_some] at h₂
      obtain ⟨ms₃, h₂, rfl⟩ := h₂
      exact .inr (.inl ⟨e, s₁, ms₁, ms₃, h₁, h₂, rfl⟩)
    · simp only [log, mark_bind_eq_some] at h₂
      obtain ⟨ms₃, h₂, rfl⟩ := h₂
      cases h₂
      exact .inl ⟨v, ms₁, h₁, rfl, rfl⟩
  · rintro (⟨v, ms', h, rfl, rfl⟩ | ⟨e, s₁, ms₁, ms₂, h, h', rfl⟩ | ⟨s₁, ms₁, ms₂, h, h', rfl⟩)
    · exact ⟨_, _, _, _, _, _, h, mark_bind_eq_some.2 ⟨[], rfl, rfl⟩, rfl⟩
    · exact ⟨_, _, _, _, _, _, h, mark_bind_eq_some.2 ⟨ms₂, h', rfl⟩, rfl⟩
    · exact ⟨_, _, _, _, _, _, h, h', rfl⟩

/-! ### Parameters -/

theorem resolveAll_nil {r : Registry} {x : Except ResolveError (List (Value γ))} :
    resolveAll low r [] s = some (x, s', ms) ↔ x = .ok [] ∧ s' = s ∧ ms = [] := by
  unfold resolveAll
  rw [pure_eq_some]
  simp

/-- The first key fails, or the others are resolved after it. -/
theorem resolveAll_cons {r : Registry} {key : String} {keys : List String}
    {x : Except ResolveError (List (Value γ))} :
    resolveAll low r (key :: keys) s = some (x, s', ms) ↔
      (∃ e, low.resolve r key s = some (.error e, s', ms) ∧ x = .error e) ∨
      (∃ v s₁ ms₁ y ms₂, low.resolve r key s = some (.ok v, s₁, ms₁) ∧
        resolveAll low r keys s₁ = some (y, s', ms₂) ∧ x = y.map (v :: ·) ∧ ms = ms₁ ++ ms₂) := by
  rw [resolveAll, bind_eq_some]
  constructor
  · rintro ⟨y, s₁, ms₁, z, s₂, ms₂, h₁, h₂, heq⟩
    cases heq
    cases y with
    | error e =>
      cases h₂
      exact .inl ⟨e, by rwa [List.append_nil], rfl⟩
    | ok v =>
      obtain ⟨w, s₃, ms₃, _, _, ms₄, h₃, h₄, heq⟩ := bind_eq_some.1 h₂
      cases heq
      refine .inr ⟨v, s₁, ms₁, w, ms₃, h₁, ?_, ?_, ?_⟩ <;> cases w <;> cases h₄ <;> simp [h₃, Except.map]
  · rintro (⟨e, h, rfl⟩ | ⟨v, s₁, ms₁, y, ms₂, h, h', rfl, rfl⟩)
    · exact ⟨_, _, _, _, _, _, h, rfl, by rw [List.append_nil]⟩
    · refine ⟨_, _, _, _, _, _, h, bind_eq_some.2 ⟨y, s', ms₂, y.map (v :: ·), s', [], h', ?_, rfl⟩, ?_⟩
      · cases y <;> rfl
      · rw [List.append_nil]

/-! ### Providers -/

/-- If the call of a function gives a value, the function has just returned it. -/
theorem call_ok {r : Registry} {receiver : Option (Value γ)} {f : Function γ} {v : Value γ}
    (h : call closures low r receiver f s = some (.ok v, s', ms)) :
    ∃ ms', ms = ms' ++ [.returned (.function f) (.ok v), .logged .invoked, .left (.invoke r.name)] := by
  obtain ⟨ms₁, hin, rfl⟩ := between_eq_some.1 h
  obtain ⟨values, s₁, ms₂, _, _, ms₃, -, hrun, heq⟩ := bind_eq_some.1 hin
  cases heq
  cases values with
  | error e => cases hrun
  | ok values =>
    obtain ⟨result, s₂, ms₄, _, _, ms₅, hf, hfinish, heq⟩ := bind_eq_some.1 hrun
    cases heq
    obtain ⟨ms₆, -, rfl⟩ := between_eq_some.1 hf
    cases result with
    | error e => cases hfinish
    | ok w =>
      cases hfinish
      exact ⟨.entered (.invoke r.name) :: (ms₂ ++ .called (.function f) ⟨receiver, values⟩ :: ms₆), by simp⟩

/-- Either a provider counting as the one that ran is replaced by its value, or nothing happens. -/
theorem memoize_eq_some {r : Registry} {key : String} {f : Function γ} {v : Value γ}
    (h : memoize r key f v s = some ((), s', ms)) :
    (∃ g cached, s.binding? r key = some (.provider g cached) ∧ g.same f = true ∧
      s' = s.bind r key (.constant v) ∧ ms = [.changed (.memoized r key v), .logged .memoized]) ∨ s' = s ∧ ms = [] := by
  rcases memoize_cases r key f v s with ⟨g, cached, hb, hg, hm⟩ | hm
  · cases hm.symm.trans h
    exact .inl ⟨g, cached, hb, hg, rfl, rfl⟩
  · cases hm.symm.trans h
    exact .inr ⟨rfl, rfl⟩

theorem provide_eq_some {r : Registry} {key : String} {f : Function γ} {a : Resolved γ} :
    provide closures low r key f s = some (a, s', ms) ↔
      (∃ e, call closures low r none f s = some (.error e, s', ms) ∧ a = .error e) ∨
      (∃ v ms', call closures low r none f s = some (.ok v, s', ms') ∧ a = .ok v ∧
        ms = ms' ++ [.provided r key f v]) := by
  unfold provide
  rw [bind_eq_some]
  constructor
  · rintro ⟨b, s₁, ms₁, c, s₂, ms₂, h₁, h₂, heq⟩
    cases heq
    cases b with
    | error e =>
      cases h₂
      exact .inl ⟨e, by rwa [List.append_nil], rfl⟩
    | ok v =>
      obtain ⟨ms₃, h₃, rfl⟩ := mark_bind_eq_some.1 h₂
      cases h₃
      exact .inr ⟨v, ms₁, h₁, rfl, rfl⟩
  · rintro (⟨e, h, rfl⟩ | ⟨v, ms', h, rfl, rfl⟩)
    · exact ⟨_, _, _, _, _, _, h, rfl, by rw [List.append_nil]⟩
    · exact ⟨_, _, _, _, _, _, h, mark_bind_eq_some.2 ⟨[], rfl, rfl⟩, rfl⟩

/-- A cached provider fails, or gives a value that is then kept. -/
theorem provideOnce_eq_some {r : Registry} {key : String} {f : Function γ} {a : Resolved γ} :
    provideOnce closures low r key f s = some (a, s', ms) ↔
      (∃ e ms', call closures low r none f s = some (.error e, s', ms') ∧ a = .error e ∧
        ms = .locked r :: (ms' ++ [.unlocked r])) ∨
      (∃ v s₁ ms₁ ms₂, call closures low r none f s = some (.ok v, s₁, ms₁) ∧
        memoize r key f v s₁ = some ((), s', ms₂) ∧ a = .ok v ∧
        ms = .locked r :: (ms₁ ++ .provided r key f v :: ms₂ ++ [.unlocked r])) := by
  unfold provideOnce
  rw [between_eq_some]
  constructor
  · rintro ⟨ms', h, rfl⟩
    obtain ⟨b, s₁, ms₁, c, s₂, ms₂, h₁, h₂, heq⟩ := bind_eq_some.1 h
    cases heq
    rcases provide_eq_some.1 h₁ with ⟨e, hc, rfl⟩ | ⟨v, ms₃, hc, rfl, rfl⟩
    · cases h₂
      exact .inl ⟨e, ms₁, hc, rfl, by rw [List.append_nil]⟩
    · obtain ⟨_, s₃, ms₄, _, _, ms₅, hm, hp, heq⟩ := bind_eq_some.1 h₂
      cases heq
      cases hp
      exact .inr ⟨v, s₁, ms₃, ms₄, hc, hm, rfl, by simp⟩
  · rintro (⟨e, ms', h, rfl, rfl⟩ | ⟨v, s₁, ms₁, ms₂, h, hm, rfl, rfl⟩)
    · exact ⟨ms', bind_eq_some.2 ⟨_, _, _, _, _, _, provide_eq_some.2 (.inl ⟨e, h, rfl⟩), rfl,
        by rw [List.append_nil]⟩, rfl⟩
    · refine ⟨_, bind_eq_some.2 ⟨_, _, _, _, _, _, provide_eq_some.2 (.inr ⟨v, ms₁, h, rfl, rfl⟩),
        bind_eq_some.2 ⟨_, _, _, _, _, _, hm, rfl, rfl⟩, ?_⟩, rfl⟩
      simp

/-- Runs that come to the same in a store do so between marks. -/
private theorem between_congr (first : Mark γ) (last : α → Mark γ) {m m' : Run γ σ α} (h : m s = m' s) :
    between first m last s = between first m' last s := by
  unfold between
  simp only [bind_apply, mark, Option.bind_some, h]

/-- Locks the registry and looks the key up again.  If it is bound to the provider still, its value is kept; if it is
bound to something else by now, that decides; if it is no longer bound, the provider is run all the same. -/
def provideLocked (closures : Closures γ σ) (low : Resolver γ σ) (r : Registry) (key : String) (f : Function γ) :
    Run γ σ (Resolved γ) :=
  between (.locked r)
    (do
      match ← read (Store.binding? · r key) with
      | some (.provider g cached) =>
        if g.same f then
          match ← provide closures low r key f with
          | .error e => return .error e
          | .ok v =>
            memoize r key f v
            return .ok v
        else resolveBinding closures low r key (.provider g cached)
      | some b => resolveBinding closures low r key b
      | none => provide closures low r key f)
    fun _ => .unlocked r

/-- Where nothing happens between the two lookups, the second one changes nothing. -/
theorem provideLocked_apply {r : Registry} {key : String} {f : Function γ} {cached : Bool}
    (hb : s.binding? r key = some (.provider f cached)) :
    provideLocked closures low r key f s = provideOnce closures low r key f s := by
  have hf : f.same f = true := by simp [Function.same]
  refine between_congr _ _ ?_
  rw [read_bind_apply, hb]
  exact congrFun (if_pos hf) s

/-! ### Requests -/

/-- What is logged when a request gives its result. -/
def reportOf : Except ResolveError α → Trace γ
  | .ok _ => []
  | .error e => [.logged (.reported e.message)]

theorem reporting_eq_some {m : Run γ σ (Except ResolveError α)} {a : Except ResolveError α} :
    reporting m s = some (a, s', ms) ↔ ∃ ms', m s = some (a, s', ms') ∧ ms = ms' ++ reportOf a := by
  unfold reporting
  rw [bind_eq_some]
  constructor
  · rintro ⟨b, s₁, ms₁, c, s₂, ms₂, h₁, h₂, heq⟩
    cases heq
    cases b with
    | ok b =>
      cases h₂
      exact ⟨ms₁, h₁, rfl⟩
    | error e =>
      simp only [log, mark_bind_eq_some] at h₂
      obtain ⟨ms₃, h₂, rfl⟩ := h₂
      cases h₂
      exact ⟨ms₁, h₁, rfl⟩
  · rintro ⟨ms', h, rfl⟩
    refine ⟨a, s', ms', a, s', reportOf a, h, ?_, rfl⟩
    cases a with
    | ok a => rfl
    | error e => exact mark_bind_eq_some.2 ⟨[], rfl, rfl⟩

/-- A request for a key resolves it and reports its failure. -/
theorem performWith_get_eq_some {r : Registry} {key : String} {a : Resolved γ} :
    performWith closures low (.get r key) s = some (a, s', ms) ↔
      ∃ ms', low.resolve r key s = some (a, s', ms') ∧
        ms = .began .get :: (ms' ++ reportOf a ++ [.ended .get (failure ResolveError.message a)]) := by
  unfold performWith asCall get
  rw [between_eq_some]
  constructor
  · rintro ⟨ms₁, h, rfl⟩
    obtain ⟨ms₂, h₂, rfl⟩ := reporting_eq_some.1 h
    exact ⟨ms₂, h₂, rfl⟩
  · rintro ⟨ms', h, rfl⟩
    exact ⟨ms' ++ reportOf a, reporting_eq_some.2 ⟨ms', h, rfl⟩, rfl⟩

/-- A request for a key that the registry binds comes to what the binding gives. -/
theorem perform_get_of_bound {n : Nat} {r : Registry} {key : String} {b : Binding γ} {a : Resolved γ}
    (hb : s.binding? r key = some b)
    (h : resolveBinding closures (level closures n) r key b s = some (a, s', ms)) :
    ∃ ms', (level closures (n + 3)).perform (.get r key) s = some (a, s', ms') := by
  have hsearch : (level closures (n + 1)).search r key s = some (some a, s', _) :=
    (searchFrom_of_bound hb).2 ⟨a, ms, h, rfl, rfl⟩
  have hresolve : (level closures (n + 2)).resolve r key s = some (a, s', _) :=
    resolveKey_eq_some.2 ⟨some a, _, hsearch, rfl, rfl⟩
  have hget : performWith closures (level closures (n + 2)) (.get r key) s = some (a, s', _) :=
    performWith_get_eq_some.2 ⟨_, hresolve, rfl⟩
  exact ⟨_, hget⟩

end Resolver

end Injection
