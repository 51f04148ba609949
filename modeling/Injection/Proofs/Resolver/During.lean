import Injection.Proofs.Resolver.Derivation

/-!
# What goes on during a run

A run is made of activities: requests, the goals of resolution and the runs of closures.  Each of them does others on
its way, one after the other and one inside the other.  `Activity.Does` tells what an activity does itself, in which
store it comes to it and which marks it has made until then; `Activity.During` and `Program.During` tell what goes on
inside of an activity or program at any depth.

Nothing is assumed about how any of it ends.  If the whole ends, however, then so does everything that goes on during
it, and its trace is a part of the whole trace: `Program.During.partOf`.
-/

namespace Injection

open Run Resolver

variable {γ σ α : Type}

/-! ### Activities -/

/-- What a run is made of. -/
inductive Activity (γ σ : Type)
  | request (q : Request γ σ)
  | goal (g : Goal γ)
  | run (c : Callee γ) (a : Arguments γ)

abbrev Activity.Answer : Activity γ σ → Type
  | .request q => q.Answer
  | .goal g => g.Answer
  | .run _ _ => Except InstantiateError (Value γ)

def Activity.perform (closures : Closures γ σ) (low : Resolver γ σ) : (x : Activity γ σ) → Run γ σ x.Answer
  | .request q => low.perform q
  | .goal g => pursue closures low g
  | .run c a => runCallee closures low c a

/-- The activity ends so. -/
abbrev Activity.Ends (closures : Closures γ σ) (x : Activity γ σ) : Store γ σ → x.Answer → Store γ σ → Trace γ → Prop :=
  Resolver.Ends closures (x.perform closures)

/-- Before the program asks this, in this store, it leaves this trace. -/
inductive Program.Asks (closures : Closures γ σ) :
    Program γ σ α → Store γ σ → Trace γ → Request γ σ → Store γ σ → Prop
  | first (q : Request γ σ) (next : q.Answer → Program γ σ α) (s : Store γ σ) : Asks closures (.ask q next) s [] q s
  | later {q q' : Request γ σ} {next : q.Answer → Program γ σ α} {s s₁ s₂ : Store γ σ} {a : q.Answer} {ms ms' : Trace γ}
    (answer : (Activity.request q).Ends closures s a s₁ ms) (asks : Asks closures (next a) s₁ ms' q' s₂) :
    Asks closures (.ask q next) s (ms ++ ms') q' s₂

namespace Activity

/-- The activity does the other, in this store, having left this trace. -/
inductive Does (closures : Closures γ σ) : Activity γ σ → Store γ σ → Trace γ → Activity γ σ → Store γ σ → Prop
  | function {f : Function γ} {a : Arguments γ} {s s₁ : Store γ σ} {q : Request γ σ} {ms : Trace γ}
    (asks : (closures.call f.body a).Asks closures s ms q s₁) :
    Does closures (.run (.function f) a) s (.called (.function f) a :: ms) (.request q) s₁
  | constructible {c : Class γ} {a : Arguments γ} {s s₁ : Store γ σ} {q : Request γ σ} {ms : Trace γ}
    (asks : (closures.construct c.body a).Asks closures s ms q s₁) :
    Does closures (.run (.constructible c) a) s (.called (.constructible c) a :: ms) (.request q) s₁
  | demand {q : Request γ σ} {r : Registry} {d : Demand γ} (demand : q.demand? = some (r, d)) (s : Store γ σ) :
    Does closures (.request q) s [.began q.name] (.goal (.meet r d)) s
  | call (f : Function γ) (a : Arguments γ) (s : Store γ σ) :
    Does closures (.request (.call f a)) s [] (.run (.function f) a) s
  | construct (c : Class γ) (a : Arguments γ) (s : Store γ σ) :
    Does closures (.request (.construct c a)) s [] (.run (.constructible c) a) s
  | thread {r : Registry} {key : String} {k n : Nat} {s s₁ : Store γ σ} {as : List (Resolved γ)} {ms : Trace γ}
    (before : Resolver.Ends closures (fun low => times (low.perform (.get r key)) k) s as s₁ ms) (lt : k < n) :
    Does closures (.request (.getInThreads r key n)) s (.forked :: ms) (.request (.get r key)) s₁
  | search (r : Registry) (key : String) (s : Store γ σ) :
    Does closures (.goal (.meet r (.key key))) s [.entered (.get key r.name)] (.goal (.search r key)) s
  | inject (r : Registry) (receiver : Option (Value γ)) (c : Callee γ) (s : Store γ σ) :
    Does closures (.goal (.meet r (.run receiver c))) s [.entered (c.span r)] (.goal (.all r c.keys)) s
  | run {r : Registry} {receiver : Option (Value γ)} {c : Callee γ} {s s₁ : Store γ σ} {vs : List (Value γ)}
    {ms : Trace γ} (all : Resolves closures (.all r c.keys) s (.ok vs) s₁ ms) :
    Does closures (.goal (.meet r (.run receiver c))) s (.entered (c.span r) :: ms)
      (.run c (c.arguments receiver vs)) s₁
  | bound {r : Registry} {key : String} {b : Binding γ} {s : Store γ σ} (bound : s.binding? r key = some b) :
    Does closures (.goal (.search r key)) s [.searching r key] (.goal (.attempt r key b)) s
  | inherited {r : Registry} {key : String} {s : Store γ σ} (unbound : s.binding? r key = none) :
    Does closures (.goal (.search r key)) s [.searching r key] (.goal (.parents key (s.parents r).reverse)) s
  | parent (key : String) (p : Registry) (ps : List Registry) (s : Store γ σ) :
    Does closures (.goal (.parents key (p :: ps))) s [] (.goal (.search p key)) s
  | failed {key : String} {p : Registry} {s s₁ : Store γ σ} {e : ResolveError} {ms : Trace γ}
    (search : Resolves closures (.search p key) s (some (.error e)) s₁ ms) (ps : List Registry) :
    Does closures (.goal (.parents key (p :: ps))) s (ms ++ [.logged (.parentFailed p.name e.message)])
      (.goal (.parents key ps)) s₁
  | absent {key : String} {p : Registry} {s s₁ : Store γ σ} {ms : Trace γ}
    (search : Resolves closures (.search p key) s none s₁ ms) (ps : List Registry) :
    Does closures (.goal (.parents key (p :: ps))) s ms (.goal (.parents key ps)) s₁
  | transient (r : Registry) (key : String) (c : Class γ) (s : Store γ σ) :
    Does closures (.goal (.attempt r key (.transient c))) s [] (.goal (.meet r (.run none (.constructible c)))) s
  | provider (r : Registry) (key : String) (f : Function γ) (cached : Bool) (s : Store γ σ) :
    Does closures (.goal (.attempt r key (.provider f cached))) s (if cached then [.locked r] else [])
      (.goal (.meet r (.run none (.function f)))) s
  | parameter (r : Registry) (key : String) (keys : List String) (s : Store γ σ) :
    Does closures (.goal (.all r (key :: keys))) s [] (.goal (.meet r (.key key))) s
  | parameters {r : Registry} {key : String} {v : Value γ} {s s₁ : Store γ σ} {ms : Trace γ}
    (first : Resolves closures (.meet r (.key key)) s (.ok v) s₁ ms) (keys : List String) :
    Does closures (.goal (.all r (key :: keys))) s ms (.goal (.all r keys)) s₁

/-- During the activity the other begins, in this store, this trace having been left. -/
inductive During (closures : Closures γ σ) : Activity γ σ → Store γ σ → Trace γ → Activity γ σ → Store γ σ → Prop
  | self (x : Activity γ σ) (s : Store γ σ) : During closures x s [] x s
  | inside {x y z : Activity γ σ} {s s₁ s₂ : Store γ σ} {ms ms' : Trace γ} (does : Does closures x s ms y s₁)
    (during : During closures y s₁ ms' z s₂) : During closures x s (ms ++ ms') z s₂

theorem During.trans {closures : Closures γ σ} {x y z : Activity γ σ} {s s₁ s₂ : Store γ σ} {ms ms' : Trace γ}
    (h : x.During closures s ms y s₁) (h' : y.During closures s₁ ms' z s₂) : x.During closures s (ms ++ ms') z s₂ := by
  induction h with
  | self x s => exact h'
  | inside does _ ih =>
    rw [List.append_assoc]
    exact .inside does (ih h')

end Activity

/-- During the program the activity begins, in this store, this trace having been left. -/
def Program.During (closures : Closures γ σ) (p : Program γ σ α) (s : Store γ σ) (ms : Trace γ) (x : Activity γ σ)
    (s₁ : Store γ σ) : Prop :=
  ∃ q s₀ ms₀ ms₁, p.Asks closures s ms₀ q s₀ ∧ (Activity.request q).During closures s₀ ms₁ x s₁ ∧ ms = ms₀ ++ ms₁

/-! ### Steps lead from the beginning of each part to its end -/

variable {closures : Closures γ σ} {s s' s₁ s₂ : Store γ σ} {ms ms' pre pre' : Trace γ}

theorem Activity.perform_below {low high : Resolver γ σ} (h : low.Below high) (x : Activity γ σ) :
    (x.perform closures low).Below (x.perform closures high) := by
  cases x with
  | request q => exact h.perform q
  | goal g => exact h.pursue g
  | run c a => exact h.runCallee c a

theorem Resolver.Resolves.least {g : Goal γ} {a : g.Answer} (h : Resolves closures g s a s' ms) :
    Effect.least s s' ms :=
  h.effect Effect.least_law Effect.least_searchLaw

theorem Program.least {p : Program γ σ α} {n : Nat} {a : α} (h : p.runWithin closures n s = some (a, s', ms)) :
    Effect.least s s' ms :=
  Effect.least_law.program (level_least closures n).perform p h

theorem Activity.Ends.least {x : Activity γ σ} {a : x.Answer} (h : x.Ends closures s a s' ms) :
    Effect.least s s' ms := by
  cases x with
  | request q =>
    obtain ⟨n, h⟩ := h
    exact (level_least closures n).perform q h
  | goal g => exact Resolves.least (resolves_iff.2 h)
  | run c args =>
    obtain ⟨n, h⟩ := h
    have hn := level_least closures n
    cases c with
    | function f => exact Effect.least_law.runFunction hn.perform f args h
    | constructible c => exact Effect.least_law.runConstructor hn.perform c args h

theorem Program.Asks.least {p : Program γ σ α} {q : Request γ σ} (h : p.Asks closures s pre q s₁) :
    Effect.least s s₁ pre := by
  induction h with
  | first q next s => exact Effect.least_law.refl s
  | later answer _ ih => exact Effect.least_law.trans answer.least ih

theorem Activity.Does.least {x y : Activity γ σ} (h : x.Does closures s pre y s₁) : Effect.least s s₁ pre := by
  have plain {m : Mark γ} (hm : m.IsPlain) (s : Store γ σ) : Effect.least s s [m] := Effect.least_law.plain s hm
  have after {m : Mark γ} (hm : m.IsPlain) {ms : Trace γ} (h : Effect.least s s₁ ms) : Effect.least s s₁ (m :: ms) :=
    Effect.least_law.trans (plain hm s) h
  cases h with
  | function asks => exact after (by trivial) asks.least
  | constructible asks => exact after (by trivial) asks.least
  | demand => exact plain (by trivial) s
  | call => exact Effect.least_law.refl s
  | construct => exact Effect.least_law.refl s
  | thread before lt =>
    obtain ⟨n, before⟩ := before
    exact after (by trivial) (Effect.least_law.times ((level_least closures n).perform _) _ before)
  | search => exact plain (by trivial) s
  | inject => exact plain (by trivial) s
  | run all => exact after (by trivial) all.least
  | bound => exact (Effect.least_searchLaw _ _).searching s
  | inherited => exact (Effect.least_searchLaw _ _).searching s
  | parent => exact Effect.least_law.refl s
  | failed search => exact Effect.least_law.trans search.least (plain (by trivial) s₁)
  | absent search => exact search.least
  | transient => exact Effect.least_law.refl s
  | provider r key f cached =>
    cases cached with
    | false => exact Effect.least_law.refl s
    | true => exact plain (by trivial) s
  | parameter => exact Effect.least_law.refl s
  | parameters first => exact first.least

theorem Activity.During.least {x y : Activity γ σ} (h : x.During closures s pre y s₁) : Effect.least s s₁ pre := by
  induction h with
  | self x s => exact Effect.least_law.refl s
  | inside does _ ih => exact Effect.least_law.trans does.least ih

/-! ### Every part of a run that ends ends -/

namespace Resolver.Ends

variable {low high : Resolver γ σ} {rule : Resolver γ σ → Run γ σ α} {a a' : α}

/-- However much a level performs, a run ends in at most one way. -/
theorem unique (hrule : ∀ {low high : Resolver γ σ}, low.Below high → (rule low).Below (rule high))
    (h : Ends closures rule s a s' ms) (h' : Ends closures rule s a' s₁ ms') : a = a' ∧ s' = s₁ ∧ ms = ms' := by
  obtain ⟨n, h, h'⟩ := h.both hrule hrule h'
  cases h.symm.trans h'
  exact ⟨rfl, rfl, rfl⟩

end Resolver.Ends

theorem Activity.Ends.unique {x : Activity γ σ} {a a' : x.Answer} (h : x.Ends closures s a s' ms)
    (h' : x.Ends closures s a' s₁ ms') : a = a' ∧ s' = s₁ ∧ ms = ms' :=
  Resolver.Ends.unique (fun h => Activity.perform_below h x) h h'

theorem Activity.ends_goal_iff {g : Goal γ} {a : g.Answer} :
    (Activity.goal g : Activity γ σ).Ends closures s a s' ms ↔ Resolves closures g s a s' ms :=
  resolves_iff.symm

theorem Resolver.Resolves.unique {g : Goal γ} {a a' : g.Answer} (h : Resolves closures g s a s' ms)
    (h' : Resolves closures g s a' s₁ ms') : a = a' ∧ s' = s₁ ∧ ms = ms' :=
  Activity.Ends.unique (x := .goal g) h.ends h'.ends

/-- The activity, begun in the one store, ends with a trace that is a part of the whole one, after what came before it,
and from there steps lead to the other store. -/
def Activity.PartOf (closures : Closures γ σ) (x : Activity γ σ) (s : Store γ σ) (pre : Trace γ) (s' : Store γ σ)
    (ms : Trace γ) : Prop :=
  ∃ a s₁ ms₁ post, x.Ends closures s a s₁ ms₁ ∧ Effect.least s₁ s' post ∧ ms = pre ++ ms₁ ++ post

namespace Activity

theorem Ends.partOf {x : Activity γ σ} {a : x.Answer} (h : x.Ends closures s a s' ms) (pre : Trace γ) :
    x.PartOf closures s pre s' (pre ++ ms) :=
  ⟨a, s', ms, [], h, Effect.least_law.refl s', by simp⟩

theorem PartOf.after {x : Activity γ σ} (h : x.PartOf closures s pre s' ms) (first : Trace γ) :
    x.PartOf closures s (first ++ pre) s' (first ++ ms) := by
  obtain ⟨a, s₁, ms₁, post, h, hpost, rfl⟩ := h
  exact ⟨a, s₁, ms₁, post, h, hpost, by simp⟩

theorem PartOf.before {x : Activity γ σ} (h : x.PartOf closures s pre s' ms) (hlast : Effect.least s' s₁ ms') :
    x.PartOf closures s pre s₁ (ms ++ ms') := by
  obtain ⟨a, s₂, ms₂, post, h, hpost, rfl⟩ := h
  exact ⟨a, s₂, ms₂, post ++ ms', h, Effect.least_law.trans hpost hlast, by simp⟩

theorem PartOf.before_plain {x : Activity γ σ} (h : x.PartOf closures s pre s' ms) {m : Mark γ} (hm : m.IsPlain) :
    x.PartOf closures s pre s' (ms ++ [m]) :=
  h.before (Effect.least_law.plain s' hm)

end Activity

open Activity

theorem Resolver.Resolves.partOf {g : Goal γ} {a : g.Answer} (h : Resolves closures g s a s' ms) (pre : Trace γ) :
    (Activity.goal g).PartOf closures s pre s' (pre ++ ms) :=
  Activity.Ends.partOf (x := .goal g) h.ends pre

/-- If a program ends, then so does each of its requests. -/
theorem Program.Asks.partOf {p : Program γ σ α} {q : Request γ σ} (hq : p.Asks closures s pre q s₁) {n : Nat} {a : α}
    (h : p.runWithin closures n s = some (a, s', ms)) : (Activity.request q).PartOf closures s₁ pre s' ms := by
  induction hq generalizing ms with
  | first q next s =>
    obtain ⟨b, s₂, ms₂, _, _, ms₃, hb, hrest, heq⟩ := bind_eq_some.1 h
    cases heq
    exact ⟨b, s₂, ms₂, ms₃, ⟨n, hb⟩, Program.least hrest, rfl⟩
  | later answer _ ih =>
    obtain ⟨b, s₂, ms₂, _, _, ms₃, hb, hrest, heq⟩ := bind_eq_some.1 h
    cases heq
    obtain ⟨rfl, rfl, rfl⟩ := answer.unique ⟨n, hb⟩
    exact (ih hrest).after _

/-- If a number of runs end one after the other, then each of them does. -/
theorem Run.times_partOf {m : Run γ σ α} (hm : m.Keeps Effect.least) {k n : Nat} {as : List α}
    (hk : times m k s = some (as, s₁, pre)) (hlt : k < n) {bs : List α} (h : times m n s = some (bs, s', ms)) :
    ∃ b s₂ ms' post, m s₁ = some (b, s₂, ms') ∧ Effect.least s₂ s' post ∧ ms = pre ++ ms' ++ post := by
  induction k generalizing n s as pre bs ms with
  | zero =>
    cases hk
    obtain ⟨n, rfl⟩ : ∃ m, n = m + 1 := ⟨n - 1, by omega⟩
    obtain ⟨b, s₂, ms₂, _, _, ms₃, hb, hrest, heq⟩ := bind_eq_some.1 h
    cases heq
    have hpost := Effect.least_law.andThen (Effect.least_law.times hm n) (fun _ => Effect.least_law.pure _) hrest
    exact ⟨b, s₂, ms₂, ms₃, hb, hpost, rfl⟩
  | succ k ih =>
    obtain ⟨n, rfl⟩ : ∃ m, n = m + 1 := ⟨n - 1, by omega⟩
    obtain ⟨b, s₂, ms₂, _, _, ms₃, hb, hrest, heq⟩ := bind_eq_some.1 h
    cases heq
    obtain ⟨b', s₂', ms₂', _, _, ms₃', hb', hrest', heq⟩ := bind_eq_some.1 hk
    cases heq
    cases hb.symm.trans hb'
    obtain ⟨bs', s₃, ms₄, _, _, ms₅, hbs, hp, heq⟩ := bind_eq_some.1 hrest
    obtain ⟨bs'', s₃', ms₄', _, _, ms₅', hbs', hp', heq'⟩ := bind_eq_some.1 hrest'
    cases heq
    cases heq'
    cases hp
    cases hp'
    obtain ⟨c, s₄, ms', post, hc, hpost, rfl⟩ := ih hbs' (by omega) hbs
    exact ⟨c, s₄, ms', post, hc, hpost, by simp⟩

theorem Activity.Does.partOf {x y : Activity γ σ} (h : x.Does closures s pre y s₁) {a : x.Answer}
    (ha : x.Ends closures s a s' ms) : y.PartOf closures s₁ pre s' ms := by
  have searched (r : Registry) (key : String) (x : Option (Resolved γ)) :
      Effect.least s' s' [.searched r key x] := (Effect.least_searchLaw r key).searched s' x
  cases h with
  | function asks =>
    obtain ⟨n, ha⟩ := ha
    obtain ⟨ms', hp, rfl⟩ := between_eq_some.1 ha
    exact ((asks.partOf hp).before_plain (by trivial)).after [_]
  | constructible asks =>
    obtain ⟨n, ha⟩ := ha
    obtain ⟨ms', hp, rfl⟩ := between_eq_some.1 ha
    obtain ⟨b, s₂, ms₂, _, _, ms₃, hb, hrest, heq⟩ := bind_eq_some.1 hp
    cases heq
    have hmake : Effect.least s₂ s' ms₃ := by
      cases b with
      | error e => exact Effect.least_law.pure _ hrest
      | ok data =>
        exact Effect.least_law.andThen (Effect.least_law.newValue data) (fun _ => Effect.least_law.pure _) hrest
    exact (((asks.partOf hb).before hmake).before_plain (by trivial)).after [_]
  | demand hq s =>
    obtain ⟨x, s₂, ms₁, ms₂, hx, hend, rfl⟩ := (ends_perform_iff_of_demand hq).1 ha
    exact ((hx.partOf []).before (conclude_keeps Effect.least_law _ x hend)).after [_]
  | call f args s =>
    obtain ⟨n, h⟩ := ends_perform_iff.1 ha
    exact Ends.partOf (x := .run (.function f) args) ⟨n, h⟩ []
  | construct c args s =>
    obtain ⟨n, h⟩ := ends_perform_iff.1 ha
    exact Ends.partOf (x := .run (.constructible c) args) ⟨n, h⟩ []
  | @thread r key k n s s₁ as ms before lt =>
    obtain ⟨m, h⟩ := ends_perform_iff.1 ha
    obtain ⟨ms', hgets, rfl⟩ := between_eq_some.1 h
    -- a thread's request is performed like any other
    have hall : Resolver.Ends closures (fun low => times (low.perform (.get r key)) n) s a s' ms' := ⟨m + 1, hgets⟩
    obtain ⟨m, hk, hn⟩ := before.both (fun h => .times (h.perform _) k) (fun h => .times (h.perform _) n) hall
    obtain ⟨b, s₂, ms₂, post, hb, hpost, rfl⟩ := times_partOf ((level_least closures m).perform _) hk lt hn
    have hpart : (Activity.request (.get r key)).PartOf closures s₁ ms s' (ms ++ ms₂ ++ post) :=
      ⟨b, s₂, ms₂, post, ⟨m, hb⟩, hpost, rfl⟩
    exact (hpart.before_plain (by trivial)).after [_]
  | search r key s =>
    cases ends_goal_iff.1 ha with
    | @key _ _ _ _ x ms search =>
      have hmissed : Effect.least s' s' (missed s' r key x) := by
        cases x with
        | none => exact Effect.least_law.plain s' (by trivial)
        | some x => exact Effect.least_law.refl s'
      exact (((search.partOf []).before hmissed).before_plain (by trivial)).after [_]
  | inject r receiver c s =>
    cases ends_goal_iff.1 ha with
    | unresolved all => exact ((all.partOf []).before_plain (by trivial)).after [_]
    | @run _ _ _ _ _ _ vs x _ ms' all run =>
      have hrun := Activity.Ends.least (x := .run c (c.arguments receiver vs)) run
      have hend := Effect.least_law.trans (Effect.least_law.plain s' (m := .logged (c.outcome x)) trivial)
        (Effect.least_law.plain s' (m := .left (c.span r)) trivial)
      exact (((all.partOf []).before hrun).before hend).after [_]
  | @run r receiver c s s₁ vs ms all =>
    cases ends_goal_iff.1 ha with
    | unresolved all' =>
      obtain ⟨heq, -, -⟩ := all.unique all'
      cases heq
    | @run _ _ _ _ _ _ _ x _ _ all' run =>
      obtain ⟨heq, rfl, rfl⟩ := all.unique all'
      cases heq
      have hend := Effect.least_law.trans (Effect.least_law.plain s' (m := .logged (c.outcome x)) trivial)
        (Effect.least_law.plain s' (m := .left (c.span r)) trivial)
      exact ((Ends.partOf (x := .run c (c.arguments receiver vs)) run ms).before hend).after [_]
  | bound bound =>
    cases ends_goal_iff.1 ha with
    | bound bound' attempt =>
      cases bound.symm.trans bound'
      exact ((attempt.partOf []).before (searched _ _ _)).after [_]
    | inherited unbound parents => cases bound.symm.trans unbound
  | inherited unbound =>
    cases ends_goal_iff.1 ha with
    | bound bound attempt => cases bound.symm.trans unbound
    | inherited unbound parents => exact ((parents.partOf []).before (searched _ _ _)).after [_]
  | parent key p ps s =>
    cases ends_goal_iff.1 ha with
    | found search => exact (search.partOf []).before_plain (by trivial)
    | @failed _ _ _ _ s₂ _ e _ _ _ search rest =>
      have hrest := Effect.least_law.trans
        (Effect.least_law.plain s₂ (m := .logged (.parentFailed p.name e.message)) trivial) rest.least
      exact (search.partOf []).before hrest
    | absent search rest => exact (search.partOf []).before rest.least
  | @failed key p s s₁ e ms search ps =>
    cases ends_goal_iff.1 ha with
    | found search' => cases (search.unique search').1
    | failed search' rest =>
      obtain ⟨heq, rfl, rfl⟩ := search.unique search'
      cases heq
      have hrest := rest.partOf (ms ++ [.logged (.parentFailed p.name e.message)])
      rwa [List.append_assoc, List.singleton_append] at hrest
    | absent search' rest => cases (search.unique search').1
  | absent search ps =>
    cases ends_goal_iff.1 ha with
    | found search' => cases (search.unique search').1
    | failed search' rest => cases (search.unique search').1
    | absent search' rest =>
      obtain ⟨-, rfl, rfl⟩ := search.unique search'
      exact rest.partOf _
  | transient r key c s =>
    cases ends_goal_iff.1 ha with
    | value hv => cases hv
    | transient meet => exact meet.partOf []
  | provider r key f cached s =>
    cases ends_goal_iff.1 ha with
    | value hv => cases hv
    | unprovided meet =>
      cases cached with
      | false => exact meet.partOf []
      | true => exact ((meet.partOf []).before_plain (by trivial)).after [_]
    | @provided _ _ _ _ _ v _ meet => exact (meet.partOf []).before ((Effect.least_searchLaw r key).provided s' f v)
    | @kept _ _ _ _ s₂ _ v _ _ meet memoize =>
      have hkeep := Effect.least_law.trans ((Effect.least_searchLaw r key).provided s₂ f v)
        ((Effect.least_searchLaw r key).memoize Effect.least_law.toActivityLaw f v memoize)
      have hpart := (((meet.partOf []).before hkeep).before_plain (m := .unlocked r) trivial).after [.locked r]
      simpa using hpart
  | parameter r key keys s =>
    cases ends_goal_iff.1 ha with
    | cons first rest => exact (first.partOf []).before rest.least
    | stopped first => exact first.partOf []
  | parameters first keys =>
    cases ends_goal_iff.1 ha with
    | cons first' rest =>
      obtain ⟨-, rfl, rfl⟩ := first.unique first'
      exact rest.partOf _
    | stopped first' => cases (first.unique first').1

theorem Activity.During.partOf {x y : Activity γ σ} (h : x.During closures s pre y s₁)
    (hx : x.PartOf closures s pre' s' ms) : y.PartOf closures s₁ (pre' ++ pre) s' ms := by
  induction h generalizing pre' s' ms with
  | self x s => rwa [List.append_nil]
  | inside does _ ih =>
    obtain ⟨a, s₂, ms₂, post, ha, hpost, rfl⟩ := hx
    rw [← List.append_assoc]
    exact ih (((does.partOf ha).after pre').before hpost)

/-- What goes on during a program that ends, ends, and its trace is a part of the whole trace. -/
theorem Program.During.partOf {p : Program γ σ α} {x : Activity γ σ} (hx : p.During closures s pre x s₁) {n : Nat}
    {a : α} (h : p.runWithin closures n s = some (a, s', ms)) : x.PartOf closures s₁ pre s' ms := by
  obtain ⟨q, s₀, ms₀, ms₁, hq, hx, rfl⟩ := hx
  exact hx.partOf (hq.partOf h)

end Injection
