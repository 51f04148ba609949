import Injection.Proofs.Resolver.Visiting

/-!
# Lookups step by step

A thread that looks up a key, invokes a function or instantiates a class gets there in steps, between any two of which
other threads may take theirs.  It has a task, and a stack of frames that tell what becomes of the outcome.  A step
reads one binding or the parents of one registry, answers one request of a closure or memoizes one value; most steps do
not even look at the store.

A cached provider is run under the lock of its registry.  To take the lock is a step, and the frame of the lock stays on
the stack until there is an outcome, whatever that is.  The binding is read again under the lock; by then it may be
another one.

A thread that is alone comes to what can be resolved: `Machine.leads_iff_resolves`.
-/

namespace Injection

open Run Resolver

variable {γ σ α β : Type}

/-! ### Closures -/

/-- The request is answered at once, without a closure being called for it. -/
def Request.IsSimple : Request γ σ → Prop
  | .newRegistry _ | .newFunction _ _ | .newValue _ | .readMemory | .writeMemory _ => True
  | _ => False

/-- Makes an instance of the data that a constructor has given. -/
def Program.instantiate :
    Except InstantiateError (Data γ (Value γ)) → Program γ σ (Except InstantiateError (Value γ))
  | .error e => .done (.error e)
  | .ok data => .ask (.newValue data) fun v => .done (.ok v)

/-- What the callee does. -/
def Closures.program (closures : Closures γ σ) :
    Callee γ → Arguments γ → Program γ σ (Except InstantiateError (Value γ))
  | .function f, a => closures.call f.body a
  | .constructible c, a => closures.construct c.body a >>= Program.instantiate

theorem Program.IsDetached.bind {p : Program γ σ α} {f : α → Program γ σ β} (hp : p.IsDetached)
    (hf : ∀ x, (f x).IsDetached) : (p >>= f).IsDetached := by
  induction p with
  | done a => exact hf a
  | ask q next ih => exact ⟨hp.1, fun x => ih x (hp.2 x)⟩

theorem Closures.Detached.program {closures : Closures γ σ} (h : closures.Detached) (c : Callee γ) (a : Arguments γ) :
    (closures.program c a).IsDetached := by
  cases c with
  | function f => exact h.call f.body a
  | constructible c =>
    refine (h.construct c.body a).bind fun y => ?_
    cases y with
    | error e => trivial
    | ok data => exact ⟨trivial, fun _ => trivial⟩

namespace Program

/-- One step of a program: a request is answered, or the program of a closure that is called comes before the rest. -/
inductive Moves (closures : Closures γ σ) : Store γ σ → Program γ σ α → Store γ σ → Program γ σ α → Prop
  | ask {q : Request γ σ} {next : q.Answer → Program γ σ α} {s s' : Store γ σ} {x : q.Answer} {ms : Trace γ}
    (simple : q.IsSimple) (answer : Ends closures (·.perform q) s x s' ms) :
    Moves closures s (.ask q next) s' (next x)
  | call (f : Function γ) (a : Arguments γ) (next : Except InstantiateError (Value γ) → Program γ σ α) (s : Store γ σ) :
    Moves closures s (.ask (.call f a) next) s (closures.program (.function f) a >>= next)
  | construct (c : Class γ) (a : Arguments γ) (next : Except InstantiateError (Value γ) → Program γ σ α)
    (s : Store γ σ) :
    Moves closures s (.ask (.construct c a) next) s (closures.program (.constructible c) a >>= next)

theorem Moves.isDetached {closures : Closures γ σ} (hclosures : closures.Detached) {p p' : Program γ σ α}
    {s s' : Store γ σ} (h : p.Moves closures s s' p') (hp : p.IsDetached) : p'.IsDetached := by
  cases h with
  | ask => exact hp.2 _
  | call f a next => exact (hclosures.program (.function f) a).bind hp.2
  | construct c a next => exact (hclosures.program (.constructible c) a).bind hp.2

/-- Every request of a detached program is answered. -/
theorem IsDetached.exists_moves {closures : Closures γ σ} {q : Request γ σ} {next : q.Answer → Program γ σ α}
    (h : (Program.ask q next).IsDetached) (s : Store γ σ) :
    ∃ s' p', (Program.ask q next).Moves closures s s' p' := by
  have hq : q.IsDetached := h.1
  cases q with
  | newRegistry | newFunction | newValue | readMemory | writeMemory => exact ⟨_, _, .ask trivial ⟨1, rfl⟩⟩
  | call f a => exact ⟨_, _, .call f a next s⟩
  | construct c a => exact ⟨_, _, .construct c a next s⟩
  | _ => exact hq.elim

/-- The program alone ends so. -/
abbrev Gives (closures : Closures γ σ) (p : Program γ σ α) (s : Store γ σ) (x : α) (s' : Store γ σ) : Prop :=
  ∃ ms, Ends closures (fun low => p.run low.perform) s x s' ms

variable {closures : Closures γ σ} {s s' s₁ : Store γ σ} {x : α}

theorem gives_done_iff {a : α} : (Program.done a).Gives closures s x s' ↔ x = a ∧ s' = s := by
  constructor
  · rintro ⟨ms, n, h⟩
    cases h
    exact ⟨rfl, rfl⟩
  · rintro ⟨rfl, rfl⟩
    exact ⟨[], 0, rfl⟩

theorem gives_bind_iff {p : Program γ σ α} {f : α → Program γ σ β} {y : β} :
    (p >>= f).Gives closures s y s' ↔ ∃ x s₁, p.Gives closures s x s₁ ∧ (f x).Gives closures s₁ y s' := by
  simp only [Gives, run_bind]
  constructor
  · rintro ⟨ms, n, h⟩
    obtain ⟨x, s₁, ms₁, _, _, ms₂, h₁, h₂, heq⟩ := bind_eq_some.1 h
    cases heq
    exact ⟨x, s₁, ⟨ms₁, n, h₁⟩, ms₂, n, h₂⟩
  · rintro ⟨x, s₁, ⟨ms₁, h₁⟩, ms₂, h₂⟩
    obtain ⟨n, h₁, h₂⟩ := h₁.both (fun h => run_below h.perform _) (fun h => run_below h.perform _) h₂
    exact ⟨ms₁ ++ ms₂, n, bind_eq_some.2 ⟨x, s₁, ms₁, y, s', ms₂, h₁, h₂, rfl⟩⟩

theorem gives_request_iff {q : Request γ σ} {a : q.Answer} :
    (request q).Gives closures s a s' ↔ ∃ ms, Ends closures (·.perform q) s a s' ms := by
  simp only [Gives, request, run, bind_pure]

theorem gives_ask_iff {q : Request γ σ} {next : q.Answer → Program γ σ α} :
    (Program.ask q next).Gives closures s x s' ↔
      ∃ a s₁, (∃ ms, Ends closures (·.perform q) s a s₁ ms) ∧ (next a).Gives closures s₁ x s' := by
  rw [show Program.ask q next = request q >>= next from rfl, gives_bind_iff]
  simp only [gives_request_iff]

theorem gives_newValue_iff {data : Data γ (Value γ)} {v : Value γ} :
    (request (.newValue data)).Gives closures s v s' ↔ v = ⟨s.fresh, data⟩ ∧ s' = s.skip := by
  rw [gives_request_iff]
  constructor
  · rintro ⟨ms, h⟩
    obtain ⟨n, h⟩ := ends_perform_iff.1 h
    cases h
    exact ⟨rfl, rfl⟩
  · rintro ⟨rfl, rfl⟩
    exact ⟨[], ends_perform_iff.2 ⟨0, rfl⟩⟩

/-- The program of a callee comes to what its run comes to. -/
theorem gives_program_iff {c : Callee γ} {a : Arguments γ} {x : Except InstantiateError (Value γ)} :
    (closures.program c a).Gives closures s x s' ↔ ∃ ms, Ends closures (runCallee closures · c a) s x s' ms := by
  cases c with
  | function f =>
    constructor
    · rintro ⟨ms, n, h⟩
      exact ⟨_, n, between_eq_some.2 ⟨ms, h, rfl⟩⟩
    · rintro ⟨ms, n, h⟩
      obtain ⟨ms', h, -⟩ := between_eq_some.1 h
      exact ⟨ms', n, h⟩
  | constructible c =>
    refine gives_bind_iff.trans ⟨?_, ?_⟩
    · rintro ⟨y, s₁, ⟨ms, n, h⟩, hend⟩
      cases y with
      | error e =>
        obtain ⟨rfl, rfl⟩ := gives_done_iff.1 hend
        exact ⟨_, n, between_eq_some.2 ⟨_, bind_eq_some.2 ⟨_, _, _, _, _, _, h, rfl, rfl⟩, rfl⟩⟩
      | ok data =>
        obtain ⟨v, s₂, hv, hend⟩ := gives_ask_iff.1 hend
        obtain ⟨rfl, rfl⟩ := gives_newValue_iff.1 (gives_request_iff.2 hv)
        obtain ⟨rfl, rfl⟩ := gives_done_iff.1 hend
        exact ⟨_, n, between_eq_some.2 ⟨_, bind_eq_some.2 ⟨_, _, _, _, _, _, h, rfl, rfl⟩, rfl⟩⟩
    · rintro ⟨ms, n, h⟩
      obtain ⟨ms', h, -⟩ := between_eq_some.1 h
      obtain ⟨y, s₁, ms₁, _, _, ms₂, h₁, h₂, heq⟩ := bind_eq_some.1 h
      cases heq
      refine ⟨y, s₁, ⟨ms₁, n, h₁⟩, ?_⟩
      cases y with
      | error e =>
        cases h₂
        exact gives_done_iff.2 ⟨rfl, rfl⟩
      | ok data =>
        cases h₂
        exact gives_ask_iff.2 ⟨_, _, gives_request_iff.1 (gives_newValue_iff.2 ⟨rfl, rfl⟩),
          gives_done_iff.2 ⟨rfl, rfl⟩⟩

end Program

/-! ### One thread -/

namespace Machine

/-- What a task comes to. -/
inductive Outcome (γ : Type)
  | resolved (a : Resolved γ)
  | searched (x : Option (Resolved γ))
  | injected (x : Except ResolveError (List (Value γ)))

inductive Task (γ σ : Type)
  | pursue (g : Goal γ)
  /-- The registry does not bind the key, so its parents are to be searched. -/
  | inherit (r : Registry) (key : String)
  /-- Under the lock, the binding is to be read again before the provider is run. -/
  | reread (r : Registry) (key : String) (f : Function γ)
  | run (p : Program γ σ (Except InstantiateError (Value γ)))
  | give (o : Outcome γ)

/-- What becomes of the outcome of a task. -/
inductive Frame (γ : Type)
  /-- What a search has found is the value of the key, if there is any. -/
  | key (r : Registry) (key : String)
  /-- What the attempt at a binding gives is what the search finds. -/
  | bound
  /-- What a parent does not give is searched in these. -/
  | parents (key : String) (ps : List Registry)
  /-- The value of a parameter comes before those of these keys, -/
  | parameters (r : Registry) (keys : List String)
  /-- which are then the arguments after it. -/
  | argument (v : Value γ)
  /-- The callee is run with the arguments. -/
  | run (receiver : Option (Value γ)) (c : Callee γ)
  /-- The lock of the registry is held. -/
  | lock (r : Registry)
  /-- The value of the provider is memoized. -/
  | keep (r : Registry) (key : String) (f : Function γ)

structure Thread (γ σ : Type) where
  task : Task γ σ
  /-- The frame that takes the outcome of the task comes first. -/
  stack : List (Frame γ)

end Machine

/-- What the goal comes to with this answer. -/
def Goal.outcome : (g : Goal γ) → g.Answer → Machine.Outcome γ
  | .meet _ _, a => .resolved a
  | .search _ _, x => .searched x
  | .parents _ _, x => .searched x
  | .attempt _ _ _, a => .resolved a
  | .all _ _, x => .injected x

namespace Machine

/-- What comes after the binding was read again.  If it is the provider still, its value is kept; if there is none any
more, the provider is run all the same. -/
def afterRereading (r : Registry) (key : String) (f : Function γ) (k : List (Frame γ)) :
    Option (Binding γ) → Thread γ σ
  | some (.provider g cached) =>
    if g.same f then ⟨.pursue (.meet r (.run none (.function f))), .keep r key f :: k⟩
    else ⟨.pursue (.attempt r key (.provider g cached)), k⟩
  | some b => ⟨.pursue (.attempt r key b), k⟩
  | none => ⟨.pursue (.meet r (.run none (.function f))), k⟩

/-- The thread can take this step in the store. -/
inductive Moves (closures : Closures γ σ) : Store γ σ → Thread γ σ → Store γ σ → Thread γ σ → Prop
  | key (r : Registry) (key : String) (k : List (Frame γ)) (s : Store γ σ) :
    Moves closures s ⟨.pursue (.meet r (.key key)), k⟩ s ⟨.pursue (.search r key), .key r key :: k⟩
  | searched (x : Option (Resolved γ)) (r : Registry) (key : String) (k : List (Frame γ)) (s : Store γ σ) :
    Moves closures s ⟨.give (.searched x), .key r key :: k⟩ s
      ⟨.give (.resolved (x.getD (.error (unregisteredIn s r key)))), k⟩
  | other (r : Registry) (t : ValueType) (k : List (Frame γ)) (s : Store γ σ) :
    Moves closures s ⟨.pursue (.meet r (.other t)), k⟩ s ⟨.give (.resolved (.error (.notCallable t))), k⟩
  | inject (r : Registry) (receiver : Option (Value γ)) (c : Callee γ) (k : List (Frame γ)) (s : Store γ σ) :
    Moves closures s ⟨.pursue (.meet r (.run receiver c)), k⟩ s ⟨.pursue (.all r c.keys), .run receiver c :: k⟩
  | unresolved (e : ResolveError) (receiver : Option (Value γ)) (c : Callee γ) (k : List (Frame γ)) (s : Store γ σ) :
    Moves closures s ⟨.give (.injected (.error e)), .run receiver c :: k⟩ s ⟨.give (.resolved (.error e)), k⟩
  | call (vs : List (Value γ)) (receiver : Option (Value γ)) (c : Callee γ) (k : List (Frame γ)) (s : Store γ σ) :
    Moves closures s ⟨.give (.injected (.ok vs)), .run receiver c :: k⟩ s
      ⟨.run (closures.program c (c.arguments receiver vs)), k⟩
  | run {p p' : Program γ σ (Except InstantiateError (Value γ))} {s s' : Store γ σ} (moves : p.Moves closures s s' p')
    (k : List (Frame γ)) : Moves closures s ⟨.run p, k⟩ s' ⟨.run p', k⟩
  | ran (x : Except InstantiateError (Value γ)) (k : List (Frame γ)) (s : Store γ σ) :
    Moves closures s ⟨.run (.done x), k⟩ s ⟨.give (.resolved (x.mapError .instantiate)), k⟩
  | bound {r : Registry} {key : String} {b : Binding γ} {s : Store γ σ} (bound : s.binding? r key = some b)
    (k : List (Frame γ)) :
    Moves closures s ⟨.pursue (.search r key), k⟩ s ⟨.pursue (.attempt r key b), .bound :: k⟩
  | attempted (a : Resolved γ) (k : List (Frame γ)) (s : Store γ σ) :
    Moves closures s ⟨.give (.resolved a), .bound :: k⟩ s ⟨.give (.searched (some a)), k⟩
  | unbound {r : Registry} {key : String} {s : Store γ σ} (unbound : s.binding? r key = none) (k : List (Frame γ)) :
    Moves closures s ⟨.pursue (.search r key), k⟩ s ⟨.inherit r key, k⟩
  | inherit (r : Registry) (key : String) (k : List (Frame γ)) (s : Store γ σ) :
    Moves closures s ⟨.inherit r key, k⟩ s ⟨.pursue (.parents key (s.parents r).reverse), k⟩
  | exhausted (key : String) (k : List (Frame γ)) (s : Store γ σ) :
    Moves closures s ⟨.pursue (.parents key []), k⟩ s ⟨.give (.searched none), k⟩
  | parent (key : String) (p : Registry) (ps : List Registry) (k : List (Frame γ)) (s : Store γ σ) :
    Moves closures s ⟨.pursue (.parents key (p :: ps)), k⟩ s ⟨.pursue (.search p key), .parents key ps :: k⟩
  | found (v : Value γ) (key : String) (ps : List Registry) (k : List (Frame γ)) (s : Store γ σ) :
    Moves closures s ⟨.give (.searched (some (.ok v))), .parents key ps :: k⟩ s ⟨.give (.searched (some (.ok v))), k⟩
  | failed (e : ResolveError) (key : String) (ps : List Registry) (k : List (Frame γ)) (s : Store γ σ) :
    Moves closures s ⟨.give (.searched (some (.error e))), .parents key ps :: k⟩ s ⟨.pursue (.parents key ps), k⟩
  | absent (key : String) (ps : List Registry) (k : List (Frame γ)) (s : Store γ σ) :
    Moves closures s ⟨.give (.searched none), .parents key ps :: k⟩ s ⟨.pursue (.parents key ps), k⟩
  | value {b : Binding γ} {v : Value γ} (value : b.value? = some v) (r : Registry) (key : String) (k : List (Frame γ))
    (s : Store γ σ) : Moves closures s ⟨.pursue (.attempt r key b), k⟩ s ⟨.give (.resolved (.ok v)), k⟩
  | transient (r : Registry) (key : String) (c : Class γ) (k : List (Frame γ)) (s : Store γ σ) :
    Moves closures s ⟨.pursue (.attempt r key (.transient c)), k⟩ s
      ⟨.pursue (.meet r (.run none (.constructible c))), k⟩
  | provider (r : Registry) (key : String) (f : Function γ) (k : List (Frame γ)) (s : Store γ σ) :
    Moves closures s ⟨.pursue (.attempt r key (.provider f false)), k⟩ s
      ⟨.pursue (.meet r (.run none (.function f))), k⟩
  | lock (r : Registry) (key : String) (f : Function γ) (k : List (Frame γ)) (s : Store γ σ) :
    Moves closures s ⟨.pursue (.attempt r key (.provider f true)), k⟩ s ⟨.reread r key f, .lock r :: k⟩
  | reread (r : Registry) (key : String) (f : Function γ) (k : List (Frame γ)) (s : Store γ σ) :
    Moves closures s ⟨.reread r key f, k⟩ s (afterRereading r key f k (s.binding? r key))
  | unprovided (e : ResolveError) (r : Registry) (key : String) (f : Function γ) (k : List (Frame γ)) (s : Store γ σ) :
    Moves closures s ⟨.give (.resolved (.error e)), .keep r key f :: k⟩ s ⟨.give (.resolved (.error e)), k⟩
  | memoize {r : Registry} {key : String} {f : Function γ} {v : Value γ} {s s' : Store γ σ} {ms : Trace γ}
    (memoize : memoize r key f v s = some ((), s', ms)) (k : List (Frame γ)) :
    Moves closures s ⟨.give (.resolved (.ok v)), .keep r key f :: k⟩ s' ⟨.give (.resolved (.ok v)), k⟩
  | release (a : Resolved γ) (r : Registry) (k : List (Frame γ)) (s : Store γ σ) :
    Moves closures s ⟨.give (.resolved a), .lock r :: k⟩ s ⟨.give (.resolved a), k⟩
  | noParameters (r : Registry) (k : List (Frame γ)) (s : Store γ σ) :
    Moves closures s ⟨.pursue (.all r []), k⟩ s ⟨.give (.injected (.ok [])), k⟩
  | parameter (r : Registry) (key : String) (keys : List String) (k : List (Frame γ)) (s : Store γ σ) :
    Moves closures s ⟨.pursue (.all r (key :: keys)), k⟩ s ⟨.pursue (.meet r (.key key)), .parameters r keys :: k⟩
  | stopped (e : ResolveError) (r : Registry) (keys : List String) (k : List (Frame γ)) (s : Store γ σ) :
    Moves closures s ⟨.give (.resolved (.error e)), .parameters r keys :: k⟩ s ⟨.give (.injected (.error e)), k⟩
  | parameters (v : Value γ) (r : Registry) (keys : List String) (k : List (Frame γ)) (s : Store γ σ) :
    Moves closures s ⟨.give (.resolved (.ok v)), .parameters r keys :: k⟩ s ⟨.pursue (.all r keys), .argument v :: k⟩
  | argument (x : Except ResolveError (List (Value γ))) (v : Value γ) (k : List (Frame γ)) (s : Store γ σ) :
    Moves closures s ⟨.give (.injected x), .argument v :: k⟩ s ⟨.give (.injected (x.map (v :: ·))), k⟩

/-- In so many steps of the thread alone, one leads from here to there. -/
inductive Path (closures : Closures γ σ) : Nat → Store γ σ → Thread γ σ → Store γ σ → Thread γ σ → Prop
  | refl (s : Store γ σ) (t : Thread γ σ) : Path closures 0 s t s t
  | head {n : Nat} {s s₁ s₂ : Store γ σ} {t t₁ t₂ : Thread γ σ} (moves : Moves closures s t s₁ t₁)
    (path : Path closures n s₁ t₁ s₂ t₂) : Path closures (n + 1) s t s₂ t₂

/-- Steps of the thread alone lead from here to there. -/
def Leads (closures : Closures γ σ) (s : Store γ σ) (t : Thread γ σ) (s' : Store γ σ) (t' : Thread γ σ) : Prop :=
  ∃ n, Path closures n s t s' t'

variable {closures : Closures γ σ} {s s' s₁ s₂ : Store γ σ} {t t₁ t₂ : Thread γ σ} {k : List (Frame γ)} {n : Nat}

theorem Leads.refl : Leads closures s t s t :=
  ⟨0, .refl s t⟩

theorem Moves.leads (h : Moves closures s t s₁ t₁) (h' : Leads closures s₁ t₁ s₂ t₂) : Leads closures s t s₂ t₂ := by
  obtain ⟨n, h'⟩ := h'
  exact ⟨n + 1, .head h h'⟩

theorem Leads.trans (h : Leads closures s t s₁ t₁) (h' : Leads closures s₁ t₁ s₂ t₂) : Leads closures s t s₂ t₂ := by
  obtain ⟨n, h⟩ := h
  induction h with
  | refl => exact h'
  | head moves _ ih => exact moves.leads (ih h')

theorem Moves.leads_to (h : Moves closures s t s₁ t₁) : Leads closures s t s₁ t₁ :=
  h.leads .refl

/-! ### What can be resolved is come to in steps -/

/-- The program of a detached closure is run to its end. -/
theorem leads_of_run (hclosures : closures.Detached) {p : Program γ σ α} (hp : p.IsDetached) {x : α} {ms : Trace γ}
    (h : p.runWithin closures n s = some (x, s', ms)) (f : α → Program γ σ (Except InstantiateError (Value γ)))
    (k : List (Frame γ)) : Leads closures s ⟨.run (p >>= f), k⟩ s' ⟨.run (f x), k⟩ := by
  induction n generalizing α s s' ms with
  | zero =>
    cases p with
    | done a =>
      cases h
      exact .refl
    | ask q next =>
      obtain ⟨_, _, _, _, _, _, hnone, -⟩ := bind_eq_some.1 h
      cases hnone
  | succ n ihn =>
    induction p generalizing s ms with
    | done a =>
      cases h
      exact .refl
    | ask q next ih =>
      obtain ⟨b, s₁, ms₁, _, _, ms₂, hb, hrest, heq⟩ := bind_eq_some.1 h
      cases heq
      have hleads := ih b (hp.2 b) hrest
      have simple (hq : q.IsSimple) : Leads closures s ⟨.run (.ask q next >>= f), k⟩ s' ⟨.run (f x), k⟩ :=
        (Moves.run (.ask hq ⟨n + 1, hb⟩) k).leads hleads
      cases q with
      | call g a =>
        obtain ⟨ms', hrun, -⟩ := between_eq_some.1 hb
        exact (Moves.run (.call g a _ s) k).leads
          ((ihn (hclosures.call g.body a) hrun (fun y => next y >>= f)).trans hleads)
      | construct c a =>
        obtain ⟨ms', hrun, -⟩ := between_eq_some.1 hb
        obtain ⟨y, s₂, ms₃, _, _, ms₄, hy, hend, heq⟩ := bind_eq_some.1 hrun
        cases heq
        have hmakes : Leads closures s₂ ⟨.run (Program.instantiate y >>= fun z => next z >>= f), k⟩ s'
            ⟨.run (f x), k⟩ := by
          cases y with
          | error e =>
            cases hend
            exact hleads
          | ok data =>
            cases hend
            exact (Moves.run (.ask (q := .newValue data) trivial ⟨1, rfl⟩) k).leads hleads
        have hfirst := ihn (hclosures.construct c.body a) hy fun y => Program.instantiate y >>= fun z => next z >>= f
        rw [← bind_assoc] at hfirst
        exact (Moves.run (.construct c a _ s) k).leads (hfirst.trans hmakes)
      | newRegistry | newFunction | newValue | readMemory | writeMemory => exact simple trivial
      | _ => exact hp.1.elim

theorem leads_of_gives (hclosures : closures.Detached) {c : Callee γ} {a : Arguments γ}
    {x : Except InstantiateError (Value γ)} {ms : Trace γ} (h : Ends closures (runCallee closures · c a) s x s' ms)
    (k : List (Frame γ)) : Leads closures s ⟨.run (closures.program c a), k⟩ s' ⟨.run (.done x), k⟩ := by
  have hp : (closures.program c a).IsDetached := hclosures.program c a
  obtain ⟨ms', n, h⟩ := Program.gives_program_iff.2 ⟨ms, h⟩
  have hleads := leads_of_run hclosures hp h pure k
  rwa [bind_pure] at hleads

/-- The provider that was read is still there. -/
theorem afterRereading_self (r : Registry) (key : String) (f : Function γ) (cached : Bool) (k : List (Frame γ)) :
    (afterRereading r key f k (some (.provider f cached)) : Thread γ σ) =
      ⟨.pursue (.meet r (.run none (.function f))), .keep r key f :: k⟩ := by
  simp [afterRereading, Function.same]

/-- What a goal comes to is come to by a thread that is alone, whatever there is on its stack. -/
theorem leads_of_resolves (hclosures : closures.Detached) {g : Goal γ} {a : g.Answer} {ms : Trace γ}
    (h : Resolves closures g s a s' ms) (hg : g.Posed s) (k : List (Frame γ)) :
    Leads closures s ⟨.pursue g, k⟩ s' ⟨.give (g.outcome a), k⟩ := by
  -- a provider that is cached is still bound when its lock is taken
  have locked {r : Registry} {key : String} {f : Function γ} {s s' : Store γ σ} {a : Resolved γ}
      (hb : s.binding? r key = some (.provider f true)) (k : List (Frame γ))
      (h : Leads closures s ⟨.pursue (.meet r (.run none (.function f))), .keep r key f :: .lock r :: k⟩ s'
        ⟨.give (.resolved a), .lock r :: k⟩) :
      Leads closures s ⟨.pursue (.attempt r key (.provider f true)), k⟩ s' ⟨.give (.resolved a), k⟩ := by
    have hreread : Moves closures s ⟨.reread r key f, .lock r :: k⟩ s _ := .reread r key f (.lock r :: k) s
    rw [hb, afterRereading_self] at hreread
    exact (Moves.lock r key f k s).leads (hreread.leads (h.trans (Moves.release a r k s').leads_to))
  induction h generalizing k with
  | key search ih => exact (Moves.key ..).leads ((ih trivial _).trans (Moves.searched ..).leads_to)
  | other => exact (Moves.other ..).leads_to
  | unresolved all ih => exact (Moves.inject ..).leads ((ih trivial _).trans (Moves.unresolved ..).leads_to)
  | run all run ih =>
    exact (Moves.inject ..).leads ((ih trivial _).trans
      ((Moves.call ..).leads ((leads_of_gives hclosures run _).trans (Moves.ran ..).leads_to)))
  | bound bound attempt ih => exact (Moves.bound bound k).leads ((ih bound _).trans (Moves.attempted ..).leads_to)
  | inherited unbound parents ih => exact (Moves.unbound unbound k).leads ((Moves.inherit ..).leads (ih trivial _))
  | exhausted => exact (Moves.exhausted ..).leads_to
  | found search ih => exact (Moves.parent ..).leads ((ih trivial _).trans (Moves.found ..).leads_to)
  | failed search rest ih ihrest =>
    exact (Moves.parent ..).leads ((ih trivial _).trans ((Moves.failed ..).leads (ihrest trivial _)))
  | absent search rest ih ihrest =>
    exact (Moves.parent ..).leads ((ih trivial _).trans ((Moves.absent ..).leads (ihrest trivial _)))
  | value hv => exact (Moves.value hv ..).leads_to
  | transient meet ih => exact (Moves.transient ..).leads (ih trivial _)
  | @unprovided r key f cached s s' e ms meet ih =>
    cases cached with
    | false => exact (Moves.provider ..).leads (ih trivial _)
    | true => exact locked hg k ((ih trivial _).trans (Moves.unprovided ..).leads_to)
  | provided meet ih => exact (Moves.provider ..).leads (ih trivial _)
  | kept meet memoize ih => exact locked hg k ((ih trivial _).trans (Moves.memoize memoize _).leads_to)
  | nil => exact (Moves.noParameters ..).leads_to
  | cons first rest ih ihrest =>
    exact (Moves.parameter ..).leads ((ih trivial _).trans
      ((Moves.parameters ..).leads ((ihrest trivial _).trans (Moves.argument ..).leads_to)))
  | stopped first ih => exact (Moves.parameter ..).leads ((ih trivial _).trans (Moves.stopped ..).leads_to)

/-! ### What is come to in steps can be resolved -/

/-- The program of a closure is run to its end before the thread goes on. -/
theorem Path.gives {p : Program γ σ (Except InstantiateError (Value γ))} {o : Outcome γ}
    (h : Path closures n s ⟨.run p, k⟩ s' ⟨.give o, []⟩) :
    ∃ x s₁ m, m < n ∧ p.Gives closures s x s₁ ∧
      Path closures m s₁ ⟨.give (.resolved (x.mapError .instantiate)), k⟩ s' ⟨.give o, []⟩ := by
  induction n generalizing s p with
  | zero => cases h
  | succ n ih =>
    cases h with
    | head moves path =>
      cases moves with
      | run moves =>
        obtain ⟨x, s₁, m, hm, hgives, hrest⟩ := ih path
        refine ⟨x, s₁, m, by omega, ?_, hrest⟩
        cases moves with
        | ask simple answer => exact Program.gives_ask_iff.2 ⟨_, _, ⟨_, answer⟩, hgives⟩
        | call f a next =>
          obtain ⟨y, s₂, hcall, hnext⟩ := Program.gives_bind_iff.1 hgives
          obtain ⟨ms, hrun⟩ := Program.gives_program_iff.1 hcall
          exact Program.gives_ask_iff.2 ⟨y, s₂, ⟨ms, ends_perform_iff.2 hrun⟩, hnext⟩
        | construct c a next =>
          obtain ⟨y, s₂, hcall, hnext⟩ := Program.gives_bind_iff.1 hgives
          obtain ⟨ms, hrun⟩ := Program.gives_program_iff.1 hcall
          exact Program.gives_ask_iff.2 ⟨y, s₂, ⟨ms, ends_perform_iff.2 hrun⟩, hnext⟩
      | ran x => exact ⟨x, s, n, by omega, Program.gives_done_iff.2 ⟨rfl, rfl⟩, path⟩

/-- In fewer than `n` steps the goal is resolved, and the thread goes on with its answer. -/
def PursuedWithin (closures : Closures γ σ) (n : Nat) (g : Goal γ) (s : Store γ σ) (k : List (Frame γ)) (s' : Store γ σ)
    (o : Outcome γ) : Prop :=
  ∃ a s₁ ms m, m < n ∧ Resolves closures g s a s₁ ms ∧
    Path closures m s₁ ⟨.give (g.outcome a), k⟩ s' ⟨.give o, []⟩

section

variable {o : Outcome γ} (ih : ∀ m < n, ∀ {s : Store γ σ} {k : List (Frame γ)} {g : Goal γ},
  Path closures m s ⟨.pursue g, k⟩ s' ⟨.give o, []⟩ → g.Posed s → PursuedWithin closures m g s k s' o)

include ih

private theorem pursued_meet {r : Registry} {d : Demand γ}
    (h : Path closures n s ⟨.pursue (.meet r d), k⟩ s' ⟨.give o, []⟩) :
    PursuedWithin closures n (.meet r d) s k s' o := by
  cases h with
  | @head n _ _ _ _ _ _ moves path =>
    cases moves with
    | key r key =>
      obtain ⟨x, s₁, ms, m, hm, hsearch, path⟩ := ih n (by omega) path trivial
      cases path with
      | @head m _ _ _ _ _ _ moves path =>
        cases moves with
        | searched => exact ⟨_, s₁, _, m, by omega, .key hsearch, path⟩
    | other r t => exact ⟨_, s, _, n, by omega, .other r t s, path⟩
    | inject r receiver c =>
      obtain ⟨x, s₁, ms, m, hm, hall, path⟩ := ih n (by omega) path trivial
      cases path with
      | @head m _ _ _ _ _ _ moves path =>
        cases x with
        | error e =>
          cases moves with
          | unresolved => exact ⟨_, s₁, _, m, by omega, .unresolved hall, path⟩
        | ok vs =>
          cases moves with
          | call =>
            obtain ⟨x, s₂, m', hm', hgives, path⟩ := path.gives
            obtain ⟨ms', hrun⟩ := Program.gives_program_iff.1 hgives
            exact ⟨_, s₂, _, m', by omega, .run hall hrun, path⟩

private theorem pursued_search {r : Registry} {key : String}
    (h : Path closures n s ⟨.pursue (.search r key), k⟩ s' ⟨.give o, []⟩) :
    PursuedWithin closures n (.search r key) s k s' o := by
  cases h with
  | @head n _ _ _ _ _ _ moves path =>
    cases moves with
    | bound hb =>
      obtain ⟨a, s₁, ms, m, hm, hattempt, path⟩ := ih n (by omega) path hb
      cases path with
      | @head m _ _ _ _ _ _ moves path =>
        cases moves with
        | attempted => exact ⟨_, s₁, _, m, by omega, .bound hb hattempt, path⟩
    | unbound hb =>
      cases path with
      | @head n _ _ _ _ _ _ moves path =>
        cases moves with
        | inherit =>
          obtain ⟨x, s₁, ms, m, hm, hparents, path⟩ := ih n (by omega) path trivial
          exact ⟨x, s₁, _, m, by omega, .inherited hb hparents, path⟩

private theorem pursued_parents {key : String} {ps : List Registry}
    (h : Path closures n s ⟨.pursue (.parents key ps), k⟩ s' ⟨.give o, []⟩) :
    PursuedWithin closures n (.parents key ps) s k s' o := by
  cases h with
  | @head n _ _ _ _ _ _ moves path =>
    cases moves with
    | exhausted key => exact ⟨_, s, _, n, by omega, .exhausted key s, path⟩
    | parent key p ps =>
      obtain ⟨x, s₁, ms, m, hm, hsearch, path⟩ := ih n (by omega) path trivial
      cases path with
      | @head m _ _ _ _ _ _ moves path =>
        rcases x with _ | e | v
        · cases moves with
          | absent =>
            obtain ⟨y, s₂, ms', m', hm', hrest, path⟩ := ih m (by omega) path trivial
            exact ⟨y, s₂, _, m', by omega, .absent hsearch hrest, path⟩
        · cases moves with
          | failed =>
            obtain ⟨y, s₂, ms', m', hm', hrest, path⟩ := ih m (by omega) path trivial
            exact ⟨y, s₂, _, m', by omega, .failed hsearch hrest, path⟩
        · cases moves with
          | found => exact ⟨_, s₁, _, m, by omega, .found hsearch, path⟩

/-- Nobody has rebound the key when the lock is taken, so the value of the provider is kept. -/
private theorem pursued_reread {r : Registry} {key : String} {f : Function γ}
    (hb : s.binding? r key = some (.provider f true)) {m : Nat} (hm : m < n)
    (h : Path closures m s ⟨.reread r key f, .lock r :: k⟩ s' ⟨.give o, []⟩) :
    PursuedWithin closures n (.attempt r key (.provider f true)) s k s' o := by
  cases h with
  | @head m _ _ _ _ _ _ moves path =>
    cases moves with
    | reread =>
      rw [hb, afterRereading_self] at path
      obtain ⟨a, s₁, ms, l, hl, hmeet, path⟩ := ih m (by omega) path trivial
      cases path with
      | @head l _ _ _ _ _ _ moves path =>
        cases a with
        | error e =>
          cases moves with
          | unprovided =>
            cases path with
            | @head l _ _ _ _ _ _ moves path =>
              cases moves with
              | release => exact ⟨_, _, _, l, by omega, .unprovided hmeet, path⟩
        | ok v =>
          cases moves with
          | memoize memoize =>
            cases path with
            | @head l _ _ _ _ _ _ moves path =>
              cases moves with
              | release => exact ⟨_, _, _, l, by omega, .kept hmeet memoize, path⟩

private theorem pursued_attempt {r : Registry} {key : String} {b : Binding γ} (hb : s.binding? r key = some b)
    (h : Path closures n s ⟨.pursue (.attempt r key b), k⟩ s' ⟨.give o, []⟩) :
    PursuedWithin closures n (.attempt r key b) s k s' o := by
  cases h with
  | @head n _ _ _ _ _ _ moves path =>
    cases moves with
    | value hv r key => exact ⟨_, s, _, n, by omega, .value hv r key s, path⟩
    | transient r key c =>
      obtain ⟨a, s₁, ms, m, hm, hmeet, path⟩ := ih n (by omega) path trivial
      exact ⟨a, s₁, _, m, by omega, .transient hmeet, path⟩
    | provider r key f =>
      obtain ⟨a, s₁, ms, m, hm, hmeet, path⟩ := ih n (by omega) path trivial
      cases a with
      | error e => exact ⟨_, s₁, _, m, by omega, .unprovided hmeet, path⟩
      | ok v => exact ⟨_, s₁, _, m, by omega, .provided hmeet, path⟩
    | lock r key f => exact pursued_reread ih hb (by omega) path

private theorem pursued_all {r : Registry} {keys : List String}
    (h : Path closures n s ⟨.pursue (.all r keys), k⟩ s' ⟨.give o, []⟩) :
    PursuedWithin closures n (.all r keys) s k s' o := by
  cases h with
  | @head n _ _ _ _ _ _ moves path =>
    cases moves with
    | noParameters r => exact ⟨_, s, _, n, by omega, .nil r s, path⟩
    | parameter r key keys =>
      obtain ⟨a, s₁, ms, m, hm, hfirst, path⟩ := ih n (by omega) path trivial
      cases path with
      | @head m _ _ _ _ _ _ moves path =>
        cases a with
        | error e =>
          cases moves with
          | stopped => exact ⟨_, s₁, _, m, by omega, .stopped hfirst, path⟩
        | ok v =>
          cases moves with
          | parameters =>
            obtain ⟨x, s₂, ms', m', hm', hrest, path⟩ := ih m (by omega) path trivial
            cases path with
            | @head m' _ _ _ _ _ _ moves path =>
              cases moves with
              | argument => exact ⟨_, s₂, _, m', by omega, .cons hfirst hrest, path⟩

end

/-- A goal is pursued to its end before the thread goes on. -/
theorem Path.pursued {g : Goal γ} {o : Outcome γ} (h : Path closures n s ⟨.pursue g, k⟩ s' ⟨.give o, []⟩)
    (hg : g.Posed s) : PursuedWithin closures n g s k s' o := by
  induction n using Nat.strong_induction_on generalizing g s k with
  | _ n ih =>
    cases g with
    | meet r d => exact pursued_meet ih h
    | search r key => exact pursued_search ih h
    | parents key ps => exact pursued_parents ih h
    | attempt r key b => exact pursued_attempt ih hg h
    | all r keys => exact pursued_all ih h

/-- A thread that is alone comes to what can be resolved, and to nothing else. -/
theorem leads_iff_resolves (hclosures : closures.Detached) {r : Registry} {d : Demand γ} {a : Resolved γ} :
    Leads closures s ⟨.pursue (.meet r d), []⟩ s' ⟨.give (.resolved a), []⟩ ↔
      ∃ ms, Resolves closures (.meet r d) s a s' ms := by
  constructor
  · rintro ⟨n, h⟩
    obtain ⟨b, s₁, ms, m, -, hmeet, path⟩ := h.pursued trivial
    cases path with
    | refl => exact ⟨ms, hmeet⟩
    | head moves => cases moves
  · rintro ⟨ms, h⟩
    exact leads_of_resolves hclosures h trivial []

end Machine

end Injection
