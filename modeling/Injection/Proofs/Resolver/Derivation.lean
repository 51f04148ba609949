import Injection.Proofs.Resolver.SearchOrder

/-!
# Resolution as a relation

`Resolves` derives how a key, a call, a search or an attempt at a binding ends, each rule from the ways in which its
parts end.  No bound occurs in it, so a statement about whole runs is an induction on derivations.  It derives exactly
the ends of the rules of resolution: `resolves_iff`.

Functions and constructors are treated alike in it, as callees, and all lookups as demands on a registry: to give a
key, or to run a callee with its parameters injected.  `Request.demand?` is the demand of each request, and
`ends_perform_iff_of_demand` tells what the request makes of its outcome.
-/

namespace Injection

open Run

variable {γ σ α : Type}

/-! ### Callees -/

namespace Callee

def signature : Callee γ → Signature
  | .function f => f.signature
  | .constructible c => c.signature

/-- The keys of the parameters. -/
def keys (c : Callee γ) : List String :=
  c.signature.keys

/-- The span of a run in the registry. -/
def span (r : Registry) : Callee γ → Span
  | .function _ => .invoke r.name
  | .constructible c => .instantiate c.makes.shortName r.name

/-- What it is run with; a constructor has no receiver. -/
def arguments (receiver : Option (Value γ)) (vs : List (Value γ)) : Callee γ → Arguments γ
  | .function _ => ⟨receiver, vs⟩
  | .constructible _ => ⟨none, vs⟩

def success : Callee γ → Event
  | .function _ => .invoked
  | .constructible _ => .instantiated

/-- The event of its result. -/
def outcome (c : Callee γ) : Except InstantiateError (Value γ) → Event
  | .ok _ => c.success
  | .error e => .failed e.message

end Callee

/-- What a lookup of the binding runs. -/
def Binding.callee? : Binding γ → Option (Callee γ)
  | .transient c => some (.constructible c)
  | .provider f _ => some (.function f)
  | _ => none

/-- The value that the binding holds. -/
def Binding.value? : Binding γ → Option (Value γ)
  | .constant v => some v
  | .singleton v => some v
  | _ => none

theorem Binding.callee?_eq_none_iff {b : Binding γ} : b.callee? = none ↔ ∃ v, b.value? = some v := by
  cases b <;> simp [callee?, value?]

namespace Resolver

variable (closures : Closures γ σ) (low : Resolver γ σ)

def runCallee : Callee γ → Arguments γ → Run γ σ (Except InstantiateError (Value γ))
  | .function f => runFunction closures low f
  | .constructible c => runConstructor closures low c

/-- Runs the callee with its parameters resolved in the registry. -/
def runIn (r : Registry) (receiver : Option (Value γ)) : Callee γ → Run γ σ (Resolved γ)
  | .function f => call closures low r receiver f
  | .constructible c => construct closures low r c

/-- The rule for functions is the rule for constructors. -/
theorem runIn_eq (r : Registry) (receiver : Option (Value γ)) (c : Callee γ) :
    runIn closures low r receiver c = inside (c.span r) (resolveAll low r c.keys >>= fun
      | .error e => pure (.error e)
      | .ok vs => runCallee closures low c (c.arguments receiver vs) >>= finish c.success) := by
  cases c <;> rfl

end Resolver

/-! ### Goals -/

/-- What a registry is asked for. -/
inductive Demand (γ : Type)
  | key (key : String)
  | run (receiver : Option (Value γ)) (c : Callee γ)
  /-- To call a value of a type that cannot be called. -/
  | other (type : ValueType)

/-- To call a value. -/
def Demand.value (receiver : Option (Value γ)) (target : Value γ) : Demand γ :=
  match target.data with
  | .function f => .run receiver (.function f)
  | _ => .other target.type

/-- What resolution has to do. -/
inductive Goal (γ : Type)
  | meet (r : Registry) (d : Demand γ)
  | search (r : Registry) (key : String)
  /-- The search through parents, in the order in which they are tried. -/
  | parents (key : String) (ps : List Registry)
  /-- The attempt at a binding of the key in the registry. -/
  | attempt (r : Registry) (key : String) (b : Binding γ)
  | all (r : Registry) (keys : List String)

abbrev Goal.Answer : Goal γ → Type
  | .meet _ _ => Resolved γ
  | .search _ _ => Option (Resolved γ)
  | .parents _ _ => Option (Resolved γ)
  | .attempt _ _ _ => Resolved γ
  | .all _ _ => Except ResolveError (List (Value γ))

namespace Resolver

/-- The run of a goal. -/
def pursue (closures : Closures γ σ) (low : Resolver γ σ) : (g : Goal γ) → Run γ σ g.Answer
  | .meet r (.key key) => low.resolve r key
  | .meet r (.run receiver c) => runIn closures low r receiver c
  | .meet _ (.other t) => (return .error (.notCallable t) : Run γ σ (Resolved γ))
  | .search r key => low.search r key
  | .parents key ps => searchParents low key ps
  | .attempt r key b => resolveBinding closures low r key b
  | .all r keys => resolveAll low r keys

/-- The marks of a provider's run, under the registry's lock if its value is to be kept. -/
def locking (r : Registry) (cached : Bool) (ms : Trace γ) : Trace γ :=
  if cached then .locked r :: (ms ++ [.unlocked r]) else ms

/-- From the store the goal has this answer, leaving this store and trace. -/
inductive Resolves (closures : Closures γ σ) :
    (g : Goal γ) → Store γ σ → g.Answer → Store γ σ → Trace γ → Prop
  | key {r : Registry} {key : String} {s s' : Store γ σ} {x : Option (Resolved γ)} {ms : Trace γ}
    (search : Resolves closures (.search r key) s x s' ms) :
    Resolves closures (.meet r (.key key)) s (x.getD (.error (unregisteredIn s' r key))) s'
      (.entered (.get key r.name) :: (ms ++ missed s' r key x ++ [.left (.get key r.name)]))
  | other (r : Registry) (t : ValueType) (s : Store γ σ) :
    Resolves closures (.meet r (.other t)) s (.error (.notCallable t)) s []
  | unresolved {r : Registry} {receiver : Option (Value γ)} {c : Callee γ} {s s' : Store γ σ} {e : ResolveError}
    {ms : Trace γ} (all : Resolves closures (.all r c.keys) s (.error e) s' ms) :
    Resolves closures (.meet r (.run receiver c)) s (.error e) s' (.entered (c.span r) :: (ms ++ [.left (c.span r)]))
  | run {r : Registry} {receiver : Option (Value γ)} {c : Callee γ} {s s₁ s' : Store γ σ} {vs : List (Value γ)}
    {x : Except InstantiateError (Value γ)} {ms ms' : Trace γ}
    (all : Resolves closures (.all r c.keys) s (.ok vs) s₁ ms)
    (run : Ends closures (runCallee closures · c (c.arguments receiver vs)) s₁ x s' ms') :
    Resolves closures (.meet r (.run receiver c)) s (x.mapError .instantiate) s'
      (.entered (c.span r) :: (ms ++ ms' ++ [.logged (c.outcome x), .left (c.span r)]))
  | bound {r : Registry} {key : String} {b : Binding γ} {s s' : Store γ σ} {a : Resolved γ} {ms : Trace γ}
    (bound : s.binding? r key = some b) (attempt : Resolves closures (.attempt r key b) s a s' ms) :
    Resolves closures (.search r key) s (some a) s' (.searching r key :: (ms ++ [.searched r key (some a)]))
  | inherited {r : Registry} {key : String} {s s' : Store γ σ} {x : Option (Resolved γ)} {ms : Trace γ}
    (unbound : s.binding? r key = none) (parents : Resolves closures (.parents key (s.parents r).reverse) s x s' ms) :
    Resolves closures (.search r key) s x s' (.searching r key :: (ms ++ [.searched r key x]))
  | exhausted (key : String) (s : Store γ σ) : Resolves closures (.parents key []) s none s []
  | found {key : String} {p : Registry} {ps : List Registry} {s s' : Store γ σ} {v : Value γ} {ms : Trace γ}
    (search : Resolves closures (.search p key) s (some (.ok v)) s' ms) :
    Resolves closures (.parents key (p :: ps)) s (some (.ok v)) s' (ms ++ [.logged (.foundInParent p.name)])
  | failed {key : String} {p : Registry} {ps : List Registry} {s s₁ s' : Store γ σ} {e : ResolveError}
    {x : Option (Resolved γ)} {ms ms' : Trace γ} (search : Resolves closures (.search p key) s (some (.error e)) s₁ ms)
    (rest : Resolves closures (.parents key ps) s₁ x s' ms') :
    Resolves closures (.parents key (p :: ps)) s x s' (ms ++ .logged (.parentFailed p.name e.message) :: ms')
  | absent {key : String} {p : Registry} {ps : List Registry} {s s₁ s' : Store γ σ} {x : Option (Resolved γ)}
    {ms ms' : Trace γ} (search : Resolves closures (.search p key) s none s₁ ms)
    (rest : Resolves closures (.parents key ps) s₁ x s' ms') :
    Resolves closures (.parents key (p :: ps)) s x s' (ms ++ ms')
  | value {b : Binding γ} {v : Value γ} (value : b.value? = some v) (r : Registry) (key : String) (s : Store γ σ) :
    Resolves closures (.attempt r key b) s (.ok v) s [.logged .found]
  | transient {r : Registry} {key : String} {c : Class γ} {s s' : Store γ σ} {a : Resolved γ} {ms : Trace γ}
    (meet : Resolves closures (.meet r (.run none (.constructible c))) s a s' ms) :
    Resolves closures (.attempt r key (.transient c)) s a s' ms
  | unprovided {r : Registry} {key : String} {f : Function γ} {cached : Bool} {s s' : Store γ σ} {e : ResolveError}
    {ms : Trace γ} (meet : Resolves closures (.meet r (.run none (.function f))) s (.error e) s' ms) :
    Resolves closures (.attempt r key (.provider f cached)) s (.error e) s' (locking r cached ms)
  | provided {r : Registry} {key : String} {f : Function γ} {s s' : Store γ σ} {v : Value γ} {ms : Trace γ}
    (meet : Resolves closures (.meet r (.run none (.function f))) s (.ok v) s' ms) :
    Resolves closures (.attempt r key (.provider f false)) s (.ok v) s' (ms ++ [.provided r key f v])
  | kept {r : Registry} {key : String} {f : Function γ} {s s₁ s' : Store γ σ} {v : Value γ} {ms ms' : Trace γ}
    (meet : Resolves closures (.meet r (.run none (.function f))) s (.ok v) s₁ ms)
    (memoize : memoize r key f v s₁ = some ((), s', ms')) :
    Resolves closures (.attempt r key (.provider f true)) s (.ok v) s'
      (.locked r :: (ms ++ .provided r key f v :: ms' ++ [.unlocked r]))
  | nil (r : Registry) (s : Store γ σ) : Resolves closures (.all r []) s (.ok []) s []
  | cons {r : Registry} {key : String} {keys : List String} {s s₁ s' : Store γ σ} {v : Value γ}
    {x : Except ResolveError (List (Value γ))} {ms ms' : Trace γ}
    (first : Resolves closures (.meet r (.key key)) s (.ok v) s₁ ms)
    (rest : Resolves closures (.all r keys) s₁ x s' ms') :
    Resolves closures (.all r (key :: keys)) s (x.map (v :: ·)) s' (ms ++ ms')
  | stopped {r : Registry} {key : String} {keys : List String} {s s' : Store γ σ} {e : ResolveError} {ms : Trace γ}
    (first : Resolves closures (.meet r (.key key)) s (.error e) s' ms) :
    Resolves closures (.all r (key :: keys)) s (.error e) s' ms

variable {closures : Closures γ σ} {low high : Resolver γ σ} {s s' : Store γ σ} {ms : Trace γ} {n m : Nat}

/-! ### Every derivation is a run -/

theorem runIn_eq_some {r : Registry} {receiver : Option (Value γ)} {c : Callee γ} {a : Resolved γ} :
    runIn closures low r receiver c s = some (a, s', ms) ↔
      (∃ e ms', resolveAll low r c.keys s = some (.error e, s', ms') ∧ a = .error e ∧
        ms = .entered (c.span r) :: (ms' ++ [.left (c.span r)])) ∨
      (∃ vs s₁ ms₁ x ms₂, resolveAll low r c.keys s = some (.ok vs, s₁, ms₁) ∧
        runCallee closures low c (c.arguments receiver vs) s₁ = some (x, s', ms₂) ∧ a = x.mapError .instantiate ∧
        ms = .entered (c.span r) :: (ms₁ ++ ms₂ ++ [.logged (c.outcome x), .left (c.span r)])) := by
  have finish_apply (x : Except InstantiateError (Value γ)) (s : Store γ σ) :
      (finish c.success x : Run γ σ _) s = some (x.mapError .instantiate, s, [.logged (c.outcome x)]) := by
    cases x <;> rfl
  rw [runIn_eq, inside, between_eq_some]
  constructor
  · rintro ⟨ms', h, rfl⟩
    obtain ⟨y, s₁, ms₁, b, s₂, ms₂, h₁, h₂, heq⟩ := bind_eq_some.1 h
    cases heq
    cases y with
    | error e =>
      cases h₂
      exact .inl ⟨e, ms₁, h₁, rfl, by rw [List.append_nil]⟩
    | ok vs =>
      obtain ⟨x, s₃, ms₃, _, _, ms₄, h₃, h₄, heq⟩ := bind_eq_some.1 h₂
      cases heq
      rw [finish_apply] at h₄
      cases h₄
      exact .inr ⟨vs, s₁, ms₁, x, ms₃, h₁, h₃, rfl, by simp⟩
  · rintro (⟨e, ms', h, rfl, rfl⟩ | ⟨vs, s₁, ms₁, x, ms₂, h, hx, rfl, rfl⟩)
    · exact ⟨ms', bind_eq_some.2 ⟨_, _, _, _, _, _, h, rfl, by rw [List.append_nil]⟩, rfl⟩
    · refine ⟨ms₁ ++ (ms₂ ++ [.logged (c.outcome x)]), bind_eq_some.2 ⟨_, _, _, _, _, _, h,
        bind_eq_some.2 ⟨x, s', ms₂, _, _, _, hx, finish_apply x s', rfl⟩, rfl⟩, by simp⟩

namespace Below

theorem runCallee (h : low.Below high) (c : Callee γ) (a : Arguments γ) :
    (runCallee closures low c a).Below (runCallee closures high c a) := by
  cases c with
  | function f => exact h.runFunction f a
  | constructible c => exact h.runConstructor c a

theorem pursue (h : low.Below high) (g : Goal γ) : (pursue closures low g).Below (pursue closures high g) := by
  cases g with
  | meet r d =>
    cases d with
    | key key => exact h.resolve r key
    | run receiver c =>
      cases c with
      | function f => exact h.call r receiver f
      | constructible c => exact h.construct r c
    | other t => exact .refl _
  | search r key => exact h.search r key
  | parents key ps => exact h.searchParents key ps
  | attempt r key b => exact h.resolveBinding r key b
  | all r keys => exact h.resolveAll r keys

end Below

/-- A run of two parts that end over some level ends over a level that serves both. -/
theorem Ends.both {β : Type} {rule : Resolver γ σ → Run γ σ α} {rule' : Resolver γ σ → Run γ σ β} {a : α} {b : β}
    {t t' : Store γ σ} {ms' : Trace γ}
    (hrule : ∀ {low high : Resolver γ σ}, low.Below high → (rule low).Below (rule high))
    (hrule' : ∀ {low high : Resolver γ σ}, low.Below high → (rule' low).Below (rule' high))
    (h : Ends closures rule s a s' ms) (h' : Ends closures rule' t b t' ms') :
    ∃ n, rule (level closures n) s = some (a, s', ms) ∧ rule' (level closures n) t = some (b, t', ms') := by
  obtain ⟨n, h⟩ := h
  obtain ⟨m, h'⟩ := h'
  exact ⟨max n m, hrule (level_below closures (Nat.le_max_left n m)) _ _ h,
    hrule' (level_below closures (Nat.le_max_right n m)) _ _ h'⟩

theorem Resolves.ends {g : Goal γ} {a : g.Answer} (h : Resolves closures g s a s' ms) :
    Ends closures (pursue closures · g) s a s' ms := by
  induction h with
  | key _ ih =>
    obtain ⟨n, h⟩ := ih
    exact ⟨n + 1, resolveKey_eq_some.2 ⟨_, _, h, rfl, rfl⟩⟩
  | other r t s => exact ⟨0, rfl⟩
  | unresolved _ ih =>
    obtain ⟨n, h⟩ := ih
    exact ⟨n, runIn_eq_some.2 (.inl ⟨_, _, h, rfl, rfl⟩)⟩
  | run _ hx ih =>
    obtain ⟨n, h, hx⟩ := ih.both (fun h => h.pursue _) (fun h => h.runCallee _ _) hx
    exact ⟨n, runIn_eq_some.2 (.inr ⟨_, _, _, _, _, h, hx, rfl, rfl⟩)⟩
  | bound hb _ ih =>
    obtain ⟨n, h⟩ := ih
    exact ⟨n + 1, (searchFrom_of_bound hb).2 ⟨_, _, h, rfl, rfl⟩⟩
  | inherited hb _ ih =>
    obtain ⟨n, h⟩ := ih
    exact ⟨n + 1, (searchFrom_of_unbound hb).2 ⟨_, h, rfl⟩⟩
  | exhausted key s => exact ⟨0, rfl⟩
  | found _ ih =>
    obtain ⟨n, h⟩ := ih
    exact ⟨n, searchParents_cons.2 (.inl ⟨_, _, h, rfl, rfl⟩)⟩
  | failed _ _ ih ihrest =>
    obtain ⟨n, h, hrest⟩ := ih.both (fun h => h.pursue _) (fun h => h.pursue _) ihrest
    exact ⟨n, searchParents_cons.2 (.inr (.inl ⟨_, _, _, _, h, hrest, rfl⟩))⟩
  | absent _ _ ih ihrest =>
    obtain ⟨n, h, hrest⟩ := ih.both (fun h => h.pursue _) (fun h => h.pursue _) ihrest
    exact ⟨n, searchParents_cons.2 (.inr (.inr ⟨_, _, _, h, hrest, rfl⟩))⟩
  | @value b v hv r key s =>
    cases b <;> cases hv <;> exact ⟨0, rfl⟩
  | transient _ ih => exact ih
  | @unprovided r key f cached _ _ _ _ _ ih =>
    obtain ⟨n, h⟩ := ih
    cases cached with
    | false => exact ⟨n, provide_eq_some.2 (.inl ⟨_, h, rfl⟩)⟩
    | true => exact ⟨n, provideOnce_eq_some.2 (.inl ⟨_, _, h, rfl, rfl⟩)⟩
  | provided _ ih =>
    obtain ⟨n, h⟩ := ih
    exact ⟨n, provide_eq_some.2 (.inr ⟨_, _, h, rfl, rfl⟩)⟩
  | kept _ hm ih =>
    obtain ⟨n, h⟩ := ih
    exact ⟨n, provideOnce_eq_some.2 (.inr ⟨_, _, _, _, h, hm, rfl, rfl⟩)⟩
  | nil r s => exact ⟨0, rfl⟩
  | cons _ _ ih ihrest =>
    obtain ⟨n, h, hrest⟩ := ih.both (fun h => h.pursue _) (fun h => h.pursue _) ihrest
    exact ⟨n, resolveAll_cons.2 (.inr ⟨_, _, _, _, _, h, hrest, rfl, rfl⟩)⟩
  | stopped _ ih =>
    obtain ⟨n, h⟩ := ih
    exact ⟨n, resolveAll_cons.2 (.inl ⟨_, h, rfl⟩)⟩

/-! ### Every run has a derivation -/

/-- All that the level gives for keys and searches can be derived. -/
private structure Derived (closures : Closures γ σ) (n : Nat) : Prop where
  resolve : ∀ r key, ((level closures n).resolve r key).Ensures (Resolves closures (.meet r (.key key)))
  search : ∀ r key, ((level closures n).search r key).Ensures (Resolves closures (.search r key))

namespace Derived

private theorem all (h : Derived closures n) (r : Registry) (keys : List String) :
    (resolveAll (level closures n) r keys).Ensures (Resolves closures (.all r keys)) := by
  induction keys with
  | nil =>
    intro s x s' ms hx
    obtain ⟨rfl, rfl, rfl⟩ := resolveAll_nil.1 hx
    exact .nil r s'
  | cons key keys ih =>
    intro s x s' ms hx
    rcases resolveAll_cons.1 hx with ⟨e, h₁, rfl⟩ | ⟨v, s₁, ms₁, y, ms₂, h₁, h₂, rfl, rfl⟩
    · exact .stopped (h.resolve r key h₁)
    · exact .cons (h.resolve r key h₁) (ih h₂)

private theorem parents (h : Derived closures n) (key : String) (ps : List Registry) :
    (searchParents (level closures n) key ps).Ensures (Resolves closures (.parents key ps)) := by
  induction ps with
  | nil =>
    intro s x s' ms hx
    obtain ⟨rfl, rfl, rfl⟩ := searchParents_nil.1 hx
    exact .exhausted key s'
  | cons p ps ih =>
    intro s x s' ms hx
    rcases searchParents_cons.1 hx with ⟨v, ms₁, h₁, rfl, rfl⟩ | ⟨e, s₁, ms₁, ms₂, h₁, h₂, rfl⟩ |
      ⟨s₁, ms₁, ms₂, h₁, h₂, rfl⟩
    · exact .found (h.search p key h₁)
    · exact .failed (h.search p key h₁) (ih h₂)
    · exact .absent (h.search p key h₁) (ih h₂)

private theorem run (h : Derived closures n) (r : Registry) (receiver : Option (Value γ)) (c : Callee γ) :
    (runIn closures (level closures n) r receiver c).Ensures (Resolves closures (.meet r (.run receiver c))) := by
  intro s a s' ms ha
  rcases runIn_eq_some.1 ha with ⟨e, ms', h₁, rfl, rfl⟩ | ⟨vs, s₁, ms₁, x, ms₂, h₁, hx, rfl, rfl⟩
  · exact .unresolved (h.all r c.keys h₁)
  · exact .run (h.all r c.keys h₁) ⟨n, hx⟩

private theorem attempt (h : Derived closures n) (r : Registry) (key : String) (b : Binding γ) :
    (resolveBinding closures (level closures n) r key b).Ensures (Resolves closures (.attempt r key b)) := by
  intro s a s' ms ha
  cases b with
  | constant v =>
    cases ha
    exact .value rfl r key s
  | singleton v =>
    cases ha
    exact .value rfl r key s
  | transient c => exact .transient (h.run r none (.constructible c) ha)
  | provider f cached =>
    have hcall := h.run r none (.function f)
    cases cached with
    | false =>
      rcases provide_eq_some.1 ha with ⟨e, hc, rfl⟩ | ⟨v, ms', hc, rfl, rfl⟩
      · exact .unprovided (hcall hc)
      · exact .provided (hcall hc)
    | true =>
      rcases provideOnce_eq_some.1 ha with ⟨e, ms', hc, rfl, rfl⟩ | ⟨v, s₁, ms₁, ms₂, hc, hm, rfl, rfl⟩
      · exact .unprovided (hcall hc)
      · exact .kept (hcall hc) hm

end Derived

private theorem level_derived (closures : Closures γ σ) (n : Nat) : Derived closures n := by
  induction n with
  | zero => exact ⟨fun _ _ => outOfBound_ensures _, fun _ _ => outOfBound_ensures _⟩
  | succ n ih =>
    constructor
    case resolve =>
      intro r key s a s' ms ha
      obtain ⟨x, ms', hx, rfl, rfl⟩ := resolveKey_eq_some.1 ha
      exact .key (ih.search r key hx)
    case search =>
      intro r key s x s' ms hx
      cases hb : s.binding? r key with
      | some b =>
        obtain ⟨a, ms', ha, rfl, rfl⟩ := (searchFrom_of_bound hb).1 hx
        exact .bound hb (ih.attempt r key b ha)
      | none =>
        obtain ⟨ms', hps, rfl⟩ := (searchFrom_of_unbound hb).1 hx
        exact .inherited hb (ih.parents key _ hps)

/-- What can be derived for a goal is what its run gives over some level. -/
theorem resolves_iff {g : Goal γ} {a : g.Answer} :
    Resolves closures g s a s' ms ↔ Ends closures (pursue closures · g) s a s' ms := by
  constructor
  · exact Resolves.ends
  · rintro ⟨n, h⟩
    have hn := level_derived closures n
    cases g with
    | meet r d =>
      cases d with
      | key key => exact hn.resolve r key h
      | run receiver c => exact hn.run r receiver c h
      | other t =>
        cases h
        exact .other r t s
    | search r key => exact hn.search r key h
    | parents key ps => exact hn.parents key ps h
    | attempt r key b => exact hn.attempt r key b h
    | all r keys => exact hn.all r keys h

/-- Goals have the effects that all activities have. -/
theorem Resolves.keeps {R : Effect γ σ} (hR : R.ActivityLaw) (hS : ∀ r key, R.SearchLaw r key) {g : Goal γ}
    {a : g.Answer} (h : Resolves closures g s a s' ms) : R s s' ms := by
  obtain ⟨n, h⟩ := h.ends
  have hn := hR.level_keeps_of_searchLaw hS closures n
  cases g with
  | meet r d =>
    cases d with
    | key key => exact hn.resolve r key h
    | run receiver c =>
      cases c with
      | function f => exact hR.call hn.resolve hn.perform r receiver f h
      | constructible c => exact hR.construct hn.resolve hn.perform r c h
    | other t => exact hR.pure _ h
  | search r key => exact hn.search r key h
  | parents key ps => exact hR.searchParents hn.search key ps h
  | attempt r key b => exact (hS r key).resolveBinding hR hn.resolve hn.perform b h
  | all r keys => exact hR.resolveAll hn.resolve r keys h

/-- Goals have the effects that all steps have. -/
theorem Resolves.effect {R : Effect γ σ} (hR : R.Law) (hS : ∀ r key, R.SearchLaw r key) {g : Goal γ} {a : g.Answer}
    (h : Resolves closures g s a s' ms) : R s s' ms :=
  h.keeps hR.toActivityLaw hS

end Resolver

/-! ### Requests -/

/-- The error of a result, if it is one. -/
def errorOf {ε : Type} : Except ε α → Option ε
  | .ok _ => none
  | .error e => some e

namespace Request

/-- The registry that is asked, and for what. -/
def demand? : Request γ σ → Option (Registry × Demand γ)
  | .get r key | .getAs r key _ => some (r, .key key)
  | .invoke r receiver f => some (r, .run receiver (.function f))
  | .invokeValue r receiver target => some (r, .value receiver target)
  | .instantiate r c | .singleton r _ c => some (r, .run none (.constructible c))
  | .register r _ f => some (r, .run none (.function f))
  | _ => none

/-- The request binds the value that it gets. -/
def Binds : Request γ σ → Prop
  | .singleton _ _ _ | .register _ _ _ => True
  | _ => False

/-- The value that it gets has to be of some type. -/
def AsksType : Request γ σ → Prop
  | .getAs _ _ _ => True
  | _ => False

/-- The error of its answer, if it asks a registry to resolve anything and fails. -/
def error? : (q : Request γ σ) → q.Answer → Option ResolveError
  | .get _ _, a => errorOf a
  | .getAs _ _ _, a => errorOf a
  | .invoke _ _ _, a => errorOf a
  | .invokeValue _ _ _, a => errorOf a
  | .instantiate _ _, a => errorOf a
  | .singleton _ _ _, a => errorOf a
  | .register _ _ _, a => errorOf a
  | _, _ => none

end Request

namespace Resolver

variable {closures : Closures γ σ} {low : Resolver γ σ} {s s' : Store γ σ} {ms : Trace γ} {q : Request γ σ}
  {r : Registry} {d : Demand γ}

/-- The end of a request. -/
def ending (c : Call) (m : Run γ σ (Except ResolveError α)) : Run γ σ (Except ResolveError α) := do
  let a ← m
  mark (.ended c (failure ResolveError.message a))
  return a

/-- The outcome, provided that a value is of the type. -/
def checked (key : String) (t : ValueType) : Resolved γ → Resolved γ
  | .ok v => if v.type = t then .ok v else .error (.incorrectType key t v.type)
  | .error e => .error e

/-- What a request makes of the outcome of its demand; the others have none. -/
def conclude : (q : Request γ σ) → Resolved γ → Run γ σ q.Answer
  | .get _ _, x => ending .get (reporting (return x))
  | .getAs _ key t, x => ending .getAs (reporting (return checked key t x))
  | .invoke _ _ _, x => ending .invoke (reporting (return x))
  | .invokeValue _ _ _, x => ending .invokeValue (reporting (return x))
  | .instantiate _ _, x => ending .instantiate (reporting (return x))
  | .singleton r key _, x => ending .singleton (bindResult r key .singleton (reporting (return x)))
  | .register r key _, x => ending .register (bindResult r key .constant (reporting (return x)))
  | _, _ => outOfBound

/-- The report comes after the run. -/
private theorem reporting_eq_bind (m : Run γ σ (Except ResolveError α)) :
    reporting m = m >>= fun x => reporting (return x) := by
  simp only [reporting, pure_bind]

private theorem asCall_bind (c : Call) (m : Run γ σ (Resolved γ)) (f : Resolved γ → Run γ σ (Except ResolveError α)) :
    asCall c ResolveError.message (m >>= f) = mark (.began c) >>= fun _ => m >>= fun x => ending c (f x) := by
  simp only [asCall, between, ending, bind_assoc]

private theorem getAs_eq (r : Registry) (key : String) (t : ValueType) :
    getAs low r key t = low.resolve r key >>= fun x => reporting (return checked key t x) := by
  unfold getAs get
  rw [reporting_eq_bind, bind_assoc]
  congr 1
  funext x
  cases x with
  | error e => rfl
  | ok v => simp only [reporting, checked, pure_bind]

private theorem invokeValue_eq (r : Registry) (receiver : Option (Value γ)) (target : Value γ) :
    invokeValue closures low r receiver target =
      reporting (pursue closures low (.meet r (.value receiver target))) := by
  unfold invokeValue Demand.value
  cases target.data <;> rfl

private theorem bindResult_eq (r : Registry) (key : String) (kind : Value γ → Binding γ) (m : Run γ σ (Resolved γ)) :
    bindResult r key kind (reporting m) = m >>= fun x => bindResult r key kind (reporting (return x)) := by
  unfold bindResult
  rw [reporting_eq_bind, bind_assoc]

theorem performWith_eq (hq : q.demand? = some (r, d)) :
    performWith closures low q =
      mark (.began q.name) >>= fun _ => pursue closures low (.meet r d) >>= conclude q := by
  cases q with
  | get r key =>
    cases hq
    rw [performWith, get, reporting_eq_bind, asCall_bind]
    rfl
  | getAs r key t =>
    cases hq
    rw [performWith, getAs_eq, asCall_bind]
    rfl
  | invoke r receiver f =>
    cases hq
    rw [performWith, invoke, reporting_eq_bind, asCall_bind]
    rfl
  | invokeValue r receiver target =>
    cases hq
    rw [performWith, invokeValue_eq, reporting_eq_bind, asCall_bind]
    rfl
  | instantiate r c =>
    cases hq
    rw [performWith, instantiate, reporting_eq_bind, asCall_bind]
    rfl
  | singleton r key c =>
    cases hq
    rw [performWith, instantiate, bindResult_eq, asCall_bind]
    rfl
  | register r key f =>
    cases hq
    rw [performWith, invoke, bindResult_eq, asCall_bind]
    rfl
  | _ => cases hq

/-- A request ends as its demand does, and as it concludes from that. -/
theorem ends_perform_iff_of_demand (hq : q.demand? = some (r, d)) {a : q.Answer} :
    Ends closures (·.perform q) s a s' ms ↔
      ∃ x s₁ ms₁ ms₂, Resolves closures (.meet r d) s x s₁ ms₁ ∧ conclude q x s₁ = some (a, s', ms₂) ∧
        ms = .began q.name :: (ms₁ ++ ms₂) := by
  rw [ends_perform_iff]
  simp only [Ends, performWith_eq hq, mark_bind_eq_some]
  constructor
  · rintro ⟨n, ms', h, rfl⟩
    obtain ⟨x, s₁, ms₁, _, _, ms₂, h₁, h₂, heq⟩ := bind_eq_some.1 h
    cases heq
    exact ⟨x, s₁, ms₁, ms₂, resolves_iff.2 ⟨n, h₁⟩, h₂, rfl⟩
  · rintro ⟨x, s₁, ms₁, ms₂, h₁, h₂, rfl⟩
    obtain ⟨n, h₁⟩ := h₁.ends
    exact ⟨n, _, bind_eq_some.2 ⟨x, s₁, ms₁, a, s', ms₂, h₁, h₂, rfl⟩, rfl⟩

private theorem ending_reporting (c : Call) (x : Resolved γ) (s : Store γ σ) :
    ending c (reporting (return x)) s =
      some (x, s, reportOf x ++ [.ended c (failure ResolveError.message x)]) := by
  cases x <;> rfl

theorem conclude_get (r : Registry) (key : String) (x : Resolved γ) (s : Store γ σ) :
    conclude (.get r key) x s = some (x, s, reportOf x ++ [.ended .get (failure ResolveError.message x)]) :=
  ending_reporting .get x s

theorem conclude_invoke (r : Registry) (receiver : Option (Value γ)) (f : Function γ) (x : Resolved γ)
    (s : Store γ σ) : conclude (.invoke r receiver f) x s =
      some (x, s, reportOf x ++ [.ended .invoke (failure ResolveError.message x)]) :=
  ending_reporting .invoke x s

theorem conclude_instantiate (r : Registry) (c : Class γ) (x : Resolved γ) (s : Store γ σ) :
    conclude (.instantiate r c) x s =
      some (x, s, reportOf x ++ [.ended .instantiate (failure ResolveError.message x)]) :=
  ending_reporting .instantiate x s

theorem conclude_getAs (r : Registry) (key : String) (t : ValueType) (x : Resolved γ) (s : Store γ σ) :
    conclude (.getAs r key t) x s = some (checked key t x, s,
      reportOf (checked key t x) ++ [.ended .getAs (failure ResolveError.message (checked key t x))]) :=
  ending_reporting .getAs (checked key t x) s

theorem checked_eq_ok {key : String} {t : ValueType} {x : Resolved γ} {v : Value γ} (h : checked key t x = .ok v) :
    x = .ok v := by
  cases x with
  | error e => cases h
  | ok w =>
    by_cases ht : w.type = t
    · rwa [checked, if_pos ht] at h
    · rw [checked, if_neg ht] at h
      cases h

theorem exists_conclude (hq : q.demand? = some (r, d)) (x : Resolved γ) (s : Store γ σ) :
    ∃ a s' ms, conclude q x s = some (a, s', ms) := by
  cases q with
  | get | getAs | invoke | invokeValue | instantiate => exact ⟨_, _, _, ending_reporting _ _ s⟩
  | singleton | register => cases x <;> exact ⟨_, _, _, rfl⟩
  | _ => cases hq

/-- What a request concludes has every effect of steps. -/
theorem conclude_keeps {R : Effect γ σ} (hR : R.Law) (q : Request γ σ) (x : Resolved γ) :
    (conclude q x).Keeps R := by
  have reporting (x : Resolved γ) : (reporting (return x) : Run γ σ (Resolved γ)).Keeps R := by
    intro s a s' ms h
    cases x with
    | error e =>
      cases h
      exact hR.plain s (m := .logged (.reported e.message)) trivial
    | ok v =>
      cases h
      exact hR.refl s
  have ending {β : Type} (c : Call) {m : Run γ σ (Except ResolveError β)} (hm : m.Keeps R) : (ending c m).Keeps R := by
    refine hR.andThen hm fun x => hR.andThen ?_ fun _ => hR.pure _
    intro s a s' ms h
    cases h
    exact hR.plain s (m := .ended c (failure ResolveError.message x)) trivial
  have bindResult (r : Registry) (key : String) (kind : Value γ → Binding γ) :
      (bindResult r key kind (Run.reporting (return x)) : Run γ σ (Except ResolveError Unit)).Keeps R := by
    refine hR.andThen (reporting x) fun y => ?_
    cases y with
    | error e => exact hR.pure _
    | ok v => exact hR.andThen (hR.bindKey r key (kind v)) fun _ => hR.pure _
  cases q with
  | get | getAs | invoke | invokeValue | instantiate => exact ending _ (reporting _)
  | singleton | register => exact ending _ (bindResult _ _ _)
  | _ => exact outOfBound_ensures _

/-- The error of a request is that of its demand, unless a value is not of the type asked for. -/
theorem conclude_error {x : Resolved γ} {a : q.Answer} (h : conclude q x s = some (a, s', ms)) {e : ResolveError}
    (he : q.error? a = some e) :
    x = .error e ∨ ∃ r key t v, q = .getAs r key t ∧ x = .ok v ∧ e = .incorrectType key t v.type := by
  have of_errorOf {y : Resolved γ} (h : errorOf y = some e) : y = .error e := by
    cases y <;> cases h
    rfl
  cases q with
  | get | invoke | invokeValue | instantiate =>
    cases (ending_reporting _ _ s).symm.trans h
    exact .inl (of_errorOf he)
  | getAs r key t =>
    cases (ending_reporting _ _ s).symm.trans h
    cases x with
    | error e' => exact .inl (of_errorOf he)
    | ok v =>
      have hv : (if v.type = t then .ok v else .error (.incorrectType key t v.type)) = Except.error e := of_errorOf he
      by_cases ht : v.type = t
      · rw [if_pos ht] at hv
        cases hv
      · rw [if_neg ht] at hv
        cases hv
        exact .inr ⟨r, key, t, v, rfl, rfl, rfl⟩
  | singleton | register =>
    cases x with
    | error e' =>
      cases h
      cases he
      exact .inl rfl
    | ok v =>
      cases h
      cases he
  | _ => cases h

/-- Unless a value has to be of some type, a request fails exactly as its demand does. -/
theorem error?_conclude {x : Resolved γ} {a : q.Answer} (h : conclude q x s = some (a, s', ms))
    (hq : ¬ q.AsksType) : q.error? a = errorOf x := by
  cases q with
  | get | invoke | invokeValue | instantiate =>
    cases (ending_reporting _ _ s).symm.trans h
    rfl
  | getAs => exact absurd trivial hq
  | singleton | register =>
    cases x with
    | error e =>
      cases h
      rfl
    | ok v =>
      cases h
      rfl
  | _ => cases h

/-- Unless it binds a value, a request leaves what its demand left. -/
theorem conclude_unbound {x : Resolved γ} {a : q.Answer} (h : conclude q x s = some (a, s', ms))
    (hb : q.Binds → (q.error? a).isSome) : s' = s ∧ ms.work = [] := by
  have reported (x : Resolved γ) (c : Call) :
      (reportOf x ++ [.ended c (failure ResolveError.message x)] : Trace γ).work = [] := by
    cases x <;> rfl
  cases q with
  | get | getAs | invoke | invokeValue | instantiate =>
    cases (ending_reporting _ _ s).symm.trans h
    exact ⟨rfl, reported _ _⟩
  | singleton | register =>
    cases x with
    | error e =>
      cases h
      exact ⟨rfl, rfl⟩
    | ok v =>
      cases h
      cases hb trivial
  | _ => cases h

/-- At most a value is bound in the end. -/
theorem conclude_store {x : Resolved γ} {a : q.Answer} (h : conclude q x s = some (a, s', ms)) :
    s' = s ∨ ∃ r key b, Binding.callee? b = none ∧ s' = s.bind r key b := by
  cases q with
  | get | getAs | invoke | invokeValue | instantiate => exact .inl (conclude_unbound h nofun).1
  | singleton r key c =>
    cases x with
    | error e => exact .inl (conclude_unbound h fun _ => by cases h; rfl).1
    | ok v =>
      cases h
      exact .inr ⟨r, key, .singleton v, rfl, rfl⟩
  | register r key f =>
    cases x with
    | error e => exact .inl (conclude_unbound h fun _ => by cases h; rfl).1
    | ok v =>
      cases h
      exact .inr ⟨r, key, .constant v, rfl, rfl⟩
  | _ => cases h

end Resolver

end Injection
