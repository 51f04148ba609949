import Injection.Proofs.Resolver.Detached
import Injection.Proofs.Resolver.During

/-!
# Injection

A request to invoke a function or to instantiate a class resolves the keys of its parameters one after the other, each
in the store that those before it left, and runs the closure once, with their values and nothing else, if all of them
have one.  The first key that fails gives its error to the request, and nothing more is resolved or run.

The receiver is an argument of that one run and of no other that the resolver makes: what the keys come to is settled
before there is a receiver.  All of this is `parameters_injected`, for any closures, whether they end or not.
-/

namespace Injection

open Run

variable {γ σ : Type}

/-! ### Closures that a trace tells of -/

namespace Trace

/-- The closures that are run, with their arguments, while so many others are running; what these run is left out. -/
def callsAt : Nat → Trace γ → List (Callee γ × Arguments γ)
  | _, [] => []
  | depth, .called c a :: ms => if depth = 0 then (c, a) :: callsAt 1 ms else callsAt (depth + 1) ms
  | depth, .returned _ _ :: ms => callsAt (depth - 1) ms
  | depth, _ :: ms => callsAt depth ms

/-- The closures that no other closure runs, with their arguments. -/
def ownCalls (ms : Trace γ) : List (Callee γ × Arguments γ) :=
  callsAt 0 ms

end Trace

/-- Closures that are run return, so what comes after the trace is as deep in closures as what comes before it. -/
def Effect.returning (_ _ : Store γ σ) (ms : Trace γ) : Prop :=
  ∀ depth rest, Trace.callsAt (depth + 1) (ms ++ rest) = Trace.callsAt (depth + 1) rest

theorem Effect.returning_law : Effect.ActivityLaw (Effect.returning (γ := γ) (σ := σ)) where
  refl _ _ _ := rfl
  trans h h' depth rest := by rw [List.append_assoc, h, h']
  event _ _ _ _ _ := rfl
  skip _ _ _ := rfl
  remember _ _ _ _ := rfl
  bind _ _ _ _ _ _ := rfl
  unbind _ _ _ _ _ := rfl
  extend _ _ _ := rfl
  around hm h depth rest := by
    cases hm with
    | span | lock | threads => simp [Trace.callsAt, h depth]
    | closure => simp [Trace.callsAt, h (depth + 1)]
  calling c failure h depth rest := by
    cases failure <;> simp [Trace.callsAt, Trace.report, h depth]

theorem Effect.returning_searchLaw (r : Registry) (key : String) :
    Effect.SearchLaw (Effect.returning (γ := γ) (σ := σ)) r key where
  searching _ _ _ := rfl
  searched _ _ _ _ := rfl
  provided _ _ _ _ _ := rfl
  memoized _ _ _ _ _ := rfl

theorem Resolver.level_returning (closures : Closures γ σ) (n : Nat) : (level closures n).Keep Effect.returning :=
  Effect.returning_law.level_keeps_of_searchLaw Effect.returning_searchLaw closures n

/-- The trace tells of these closures, whatever comes after it. -/
def Trace.Calls (ms : Trace γ) (calls : List (Callee γ × Arguments γ)) : Prop :=
  ∀ rest, callsAt 0 (ms ++ rest) = calls ++ callsAt 0 rest

namespace Trace.Calls

variable {ms ms' : Trace γ} {calls calls' : List (Callee γ × Arguments γ)} {m : Mark γ}

theorem nil : Trace.Calls ([] : Trace γ) [] :=
  fun _ => rfl

theorem append (h : ms.Calls calls) (h' : ms'.Calls calls') : Trace.Calls (ms ++ ms') (calls ++ calls') := by
  intro rest
  rw [List.append_assoc, h, h', List.append_assoc]

theorem cons (hm : ¬ m.IsOfClosure) (h : ms.Calls calls) : Trace.Calls (m :: ms) calls := by
  intro rest
  rw [← h rest]
  cases m with
  | called | returned => exact absurd trivial hm
  | _ => rfl

theorem ownCalls_eq (h : ms.Calls calls) : ms.ownCalls = calls := by
  have := h []
  rwa [List.append_nil, callsAt, List.append_nil] at this

end Trace.Calls

/-- The closures that no other closure runs have no receiver. -/
def Trace.Unseen (ms : Trace γ) : Prop :=
  ∃ calls, ms.Calls calls ∧ ∀ x ∈ calls, x.2.receiver = none

namespace Trace.Unseen

variable {ms ms' : Trace γ} {m : Mark γ}

theorem nil : Trace.Unseen ([] : Trace γ) :=
  ⟨[], .nil, fun _ hx => absurd hx List.not_mem_nil⟩

theorem append (h : ms.Unseen) (h' : ms'.Unseen) : Trace.Unseen (ms ++ ms') := by
  obtain ⟨calls, hcalls, hnone⟩ := h
  obtain ⟨calls', hcalls', hnone'⟩ := h'
  exact ⟨calls ++ calls', hcalls.append hcalls', List.forall_mem_append.2 ⟨hnone, hnone'⟩⟩

theorem cons (hm : ¬ m.IsOfClosure) (h : ms.Unseen) : Trace.Unseen (m :: ms) := by
  obtain ⟨calls, hcalls, hnone⟩ := h
  exact ⟨calls, hcalls.cons hm, hnone⟩

theorem single (hm : ¬ m.IsOfClosure) : Trace.Unseen [m] :=
  nil.cons hm

end Trace.Unseen

namespace Resolver

variable {closures : Closures γ σ} {s s' s₁ : Store γ σ} {ms ms₁ : Trace γ} {r : Registry} {c : Callee γ}
  {vs : List (Value γ)} {key : String} {keys : List String} {e : ResolveError}

/-- The run of a closure is one call. -/
theorem runCallee_calls {a : Arguments γ} {x : Except InstantiateError (Value γ)}
    (h : Ends closures (runCallee closures · c a) s x s' ms) : ms.Calls [(c, a)] := by
  obtain ⟨n, h⟩ := h
  have hlaw : Effect.ActivityLaw (Effect.returning (γ := γ) (σ := σ)) := Effect.returning_law
  have hlow := (level_returning closures n).perform
  obtain ⟨inner, hinner, rfl⟩ :
      ∃ inner, Effect.returning s s' inner ∧ ms = .called c a :: (inner ++ [.returned c x]) := by
    cases c with
    | function f =>
      obtain ⟨inner, hrun, rfl⟩ := between_eq_some.1 h
      exact ⟨inner, hlaw.program hlow _ hrun, rfl⟩
    | constructible c =>
      obtain ⟨inner, hrun, rfl⟩ := between_eq_some.1 h
      refine ⟨inner, hlaw.andThen (hlaw.program hlow _) (fun x => ?_) hrun, rfl⟩
      cases x with
      | error e => exact hlaw.pure _
      | ok data => exact hlaw.andThen (hlaw.newValue data) fun _ => hlaw.pure _
  intro rest
  simp [Trace.callsAt, hinner 0]

end Resolver

/-! ### Goals without a receiver -/

/-- No callee is to be run with a receiver. -/
def Goal.NoReceiver : Goal γ → Prop
  | .meet _ (.run receiver _) => receiver = none
  | _ => True

theorem Callee.receiver_arguments_none (c : Callee γ) (vs : List (Value γ)) :
    (c.arguments none vs).receiver = none := by
  cases c <;> rfl

/-- On the way to the goal the resolver itself runs the callee; no closure has asked for that. -/
inductive Goal.Runs (closures : Closures γ σ) : Goal γ → Store γ σ → Callee γ → Arguments γ → Prop
  | run {g : Goal γ} {s s₁ : Store γ σ} {ms : Trace γ} {c : Callee γ} {a : Arguments γ}
    (does : (Activity.goal g).Does closures s ms (.run c a) s₁) : Runs closures g s c a
  | inside {g g' : Goal γ} {s s₁ : Store γ σ} {ms : Trace γ} {c : Callee γ} {a : Arguments γ}
    (does : (Activity.goal g).Does closures s ms (.goal g') s₁) (runs : Runs closures g' s₁ c a) : Runs closures g s c a

namespace Resolver

variable {closures : Closures γ σ} {s s' s₁ : Store γ σ} {ms ms₁ : Trace γ} {g g' : Goal γ} {c : Callee γ}

/-- The resolver never poses itself a goal with a receiver. -/
theorem noReceiver_of_does (h : (Activity.goal g).Does closures s ms (.goal g') s₁) : g'.NoReceiver := by
  cases h with
  | transient | provider => rfl
  | _ => trivial

theorem receiver_of_runs {a : Arguments γ} (h : g.Runs closures s c a) (hg : g.NoReceiver) : a.receiver = none := by
  induction h with
  | run does =>
    cases does with
    | run all =>
      cases (show _ = none from hg)
      exact Callee.receiver_arguments_none ..
  | inside does _ ih => exact ih (noReceiver_of_does does)

theorem Resolves.unseen {a : g.Answer} (h : Resolves closures g s a s' ms) (hg : g.NoReceiver) : ms.Unseen := by
  induction h with
  | @key r key s s' x ms _ ih =>
    have hx : Trace.Unseen (missed s' r key x) := by
      cases x with
      | none => exact .single id
      | some x => exact .nil
    exact (((ih trivial).append hx).append (.single id)).cons id
  | other => exact .nil
  | unresolved _ ih => exact ((ih trivial).append (.single id)).cons id
  | @run r receiver c s s₁ s' vs x ms ms' _ hx ih =>
    have hrun : Trace.Unseen ms' := by
      refine ⟨_, runCallee_calls hx, ?_⟩
      cases (show receiver = none from hg)
      exact List.forall_mem_singleton.2 (c.receiver_arguments_none vs)
    exact (((ih trivial).append hrun).append ((Trace.Unseen.single id).cons id)).cons id
  | bound _ _ ih => exact ((ih trivial).append (.single id)).cons id
  | inherited _ _ ih => exact ((ih trivial).append (.single id)).cons id
  | exhausted => exact .nil
  | found _ ih => exact (ih trivial).append (.single id)
  | failed _ _ ih ihrest => exact (ih trivial).append ((ihrest trivial).cons id)
  | absent _ _ ih ihrest => exact (ih trivial).append (ihrest trivial)
  | value => exact .single id
  | transient _ ih => exact ih rfl
  | @unprovided r key f cached _ _ _ ms _ ih =>
    cases cached with
    | false => exact ih rfl
    | true => exact ((ih rfl).append (.single id)).cons id
  | provided _ ih => exact (ih rfl).append (.single id)
  | kept _ hm ih =>
    rcases memoize_eq_some hm with ⟨g, cached, -, -, -, rfl⟩ | ⟨-, rfl⟩
    · exact (((ih rfl).append (((Trace.Unseen.single id).cons id).cons id)).append (.single id)).cons id
    · exact (((ih rfl).append (.single id)).append (.single id)).cons id
  | nil => exact .nil
  | cons _ _ ih ihrest => exact (ih trivial).append (ihrest trivial)
  | stopped _ ih => exact ih trivial

end Resolver

/-! ### Requests -/

/-- The request by which a user runs the callee. -/
def Callee.call : Callee γ → Call
  | .function _ => .invoke
  | .constructible _ => .instantiate

/-- The trace of such a request, from that of its parameters and its closure. -/
def Callee.requestTrace (c : Callee γ) (r : Registry) (a : Resolved γ) (inner : Trace γ) : Trace γ :=
  .began c.call :: .entered (c.span r) ::
    (inner ++ .left (c.span r) :: (Resolver.reportOf a ++ [.ended c.call (failure ResolveError.message a)]))

namespace Resolver

/-- Invokes the function or instantiates the class for the user; only a function has a receiver. -/
def inject (low : Resolver γ σ) (r : Registry) (receiver : Option (Value γ)) : Callee γ → Run γ σ (Resolved γ)
  | .function f => low.perform (.invoke r receiver f)
  | .constructible c => low.perform (.instantiate r c)

/-- The keys give these values in turn, each in the store that those before it left. -/
inductive GiveInTurn (closures : Closures γ σ) (r : Registry) :
    List String → Store γ σ → List (Value γ) → Store γ σ → Trace γ → Prop
  | nil (s : Store γ σ) : GiveInTurn closures r [] s [] s []
  | cons {key : String} {keys : List String} {s s₁ s' : Store γ σ} {v : Value γ} {vs : List (Value γ)}
    {ms ms' : Trace γ} (first : Ends closures (·.resolve r key) s (.ok v) s₁ ms)
    (rest : GiveInTurn closures r keys s₁ vs s' ms') :
    GiveInTurn closures r (key :: keys) s (v :: vs) s' (ms ++ ms')

/-- Some keys give values in turn, the one after them fails with this error, and the others are left alone. -/
inductive FailInTurn (closures : Closures γ σ) (r : Registry) :
    List String → Store γ σ → ResolveError → Store γ σ → Trace γ → Prop
  | fail {before after : List String} {key : String} {s s₁ s' : Store γ σ} {vs : List (Value γ)} {e : ResolveError}
    {ms ms' : Trace γ} (given : GiveInTurn closures r before s vs s₁ ms)
    (fails : Ends closures (·.resolve r key) s₁ (.error e) s' ms') :
    FailInTurn closures r (before ++ key :: after) s e s' (ms ++ ms')

section

variable {closures : Closures γ σ} {s s' s₁ : Store γ σ} {ms ms₁ : Trace γ} {r : Registry} {c : Callee γ}
  {receiver : Option (Value γ)} {keys : List String} {vs : List (Value γ)} {e : ResolveError} {a : Resolved γ}

theorem GiveInTurn.length_eq (h : GiveInTurn closures r keys s vs s' ms) : vs.length = keys.length := by
  induction h with
  | nil => rfl
  | cons _ _ ih => rw [List.length_cons, List.length_cons, ih]

theorem all_ok_iff : Resolves closures (.all r keys) s (.ok vs) s' ms ↔ GiveInTurn closures r keys s vs s' ms := by
  constructor
  · intro h
    induction keys generalizing s vs ms with
    | nil =>
      cases h
      exact .nil _
    | cons key keys ih =>
      generalize hx : Except.ok vs = x at h
      cases h with
      | @cons _ _ _ _ _ _ v y _ _ first rest =>
        cases y with
        | error e => cases hx
        | ok ws =>
          cases hx
          exact .cons first.ends (ih rest)
      | stopped => cases hx
  · intro h
    induction h with
    | nil s => exact .nil r s
    | cons first _ ih => exact .cons (x := .ok _) (resolves_iff.2 first) ih

theorem all_error_iff : Resolves closures (.all r keys) s (.error e) s' ms ↔ FailInTurn closures r keys s e s' ms := by
  constructor
  · intro h
    induction keys generalizing s ms with
    | nil => cases h
    | cons key keys ih =>
      generalize hx : Except.error e = x at h
      cases h with
      | @cons _ _ _ _ _ _ v y ms _ first rest =>
        cases y with
        | ok ws => cases hx
        | error e =>
          cases hx
          cases ih rest with
          | fail given fails =>
            rw [← List.append_assoc]
            exact .fail (.cons first.ends given) fails
      | stopped first =>
        cases hx
        exact .fail (.nil s) first.ends
  · rintro ⟨given, fails⟩
    induction given with
    | nil s => exact .stopped (resolves_iff.2 fails)
    | cons first _ ih =>
      rw [List.append_assoc]
      exact .cons (x := .error e) (resolves_iff.2 first) (ih fails)

/-- What a demand comes to is what the request comes to that hands it on as it is. -/
private theorem exists_handed_on {P : Resolved γ → Store γ σ → Trace γ → Prop} {f : Resolved γ → Run γ σ (Resolved γ)}
    {rest : Resolved γ → Trace γ} {m : Mark γ} (hf : ∀ x s, f x s = some (x, s, rest x)) :
    (∃ x s₁ ms₁ ms₂, P x s₁ ms₁ ∧ f x s₁ = some (a, s', ms₂) ∧ ms = m :: (ms₁ ++ ms₂)) ↔
      ∃ ms₁, P a s' ms₁ ∧ ms = m :: (ms₁ ++ rest a) := by
  constructor
  · rintro ⟨x, s₁, ms₁, ms₂, hx, hend, rfl⟩
    cases (hf x s₁).symm.trans hend
    exact ⟨ms₁, hx, rfl⟩
  · rintro ⟨ms₁, ha, rfl⟩
    exact ⟨a, s', ms₁, _, ha, hf a s', rfl⟩

/-- The request ends as the run of the callee in the registry does, and reports its failure. -/
theorem ends_inject_iff : Ends closures (inject · r receiver c) s a s' ms ↔
    ∃ ms₁, Resolves closures (.meet r (.run receiver c)) s a s' ms₁ ∧
      ms = .began c.call :: (ms₁ ++ (reportOf a ++ [.ended c.call (failure ResolveError.message a)])) := by
  cases c with
  | function f =>
    exact (ends_perform_iff_of_demand (q := .invoke r receiver f) rfl).trans
      (exists_handed_on (conclude_invoke r receiver f))
  | constructible c =>
    -- a constructor has no use for the receiver
    have hmeet {ms₁ : Trace γ} : Resolves closures (.meet r (.run receiver (.constructible c))) s a s' ms₁ ↔
        Resolves closures (.meet r (.run none (.constructible c))) s a s' ms₁ := by
      rw [resolves_iff, resolves_iff]
      exact Iff.rfl
    simp only [hmeet]
    exact (ends_perform_iff_of_demand (q := .instantiate r c) rfl).trans (exists_handed_on (conclude_instantiate r c))

/-- If the keys fail, so does the request. -/
theorem ends_inject_iff_of_fail (h : FailInTurn closures r c.keys s e s₁ ms₁) :
    Ends closures (inject · r receiver c) s a s' ms ↔ a = .error e ∧ s' = s₁ ∧ ms = c.requestTrace r a ms₁ := by
  have hall := all_error_iff.2 h
  rw [ends_inject_iff]
  constructor
  · rintro ⟨ms₂, hmeet, rfl⟩
    cases hmeet with
    | unresolved all =>
      obtain ⟨heq, rfl, rfl⟩ := hall.unique all
      cases heq
      exact ⟨rfl, rfl, by simp [Callee.requestTrace]⟩
    | run all => cases (hall.unique all).1
  · rintro ⟨rfl, rfl, rfl⟩
    exact ⟨_, .unresolved hall, by simp [Callee.requestTrace]⟩

/-- If the keys give values, the request comes to what the closure makes of them. -/
theorem ends_inject_iff_of_give (h : GiveInTurn closures r c.keys s vs s₁ ms₁) :
    Ends closures (inject · r receiver c) s a s' ms ↔
      ∃ x ms₂, Ends closures (runCallee closures · c (c.arguments receiver vs)) s₁ x s' ms₂ ∧
        a = x.mapError .instantiate ∧ ms = c.requestTrace r a (ms₁ ++ ms₂ ++ [.logged (c.outcome x)]) := by
  have hall := all_ok_iff.2 h
  rw [ends_inject_iff]
  constructor
  · rintro ⟨ms₂, hmeet, rfl⟩
    cases hmeet with
    | unresolved all => cases (hall.unique all).1
    | run all run =>
      obtain ⟨heq, rfl, rfl⟩ := hall.unique all
      cases heq
      exact ⟨_, _, run, rfl, by simp [Callee.requestTrace]⟩
  · rintro ⟨x, ms₂, hx, rfl, rfl⟩
    exact ⟨_, .run hall hx, by simp [Callee.requestTrace]⟩

/-- What comes after the closure is no closure's. -/
theorem requestTrace_calls {inner : Trace γ} {calls : List (Callee γ × Arguments γ)} (h : inner.Calls calls) :
    (c.requestTrace r a inner).Calls calls := by
  have hend : Trace.Calls
      (.left (c.span r) :: (reportOf a ++ [.ended c.call (failure ResolveError.message a)]) : Trace γ) [] := by
    cases a <;> exact fun _ => rfl
  have happend := h.append hend
  rw [List.append_nil] at happend
  exact (happend.cons id).cons id

end

end Resolver

open Resolver

/-- What becomes of the parameters, the closure and the receiver in a request to run the callee for the registry. -/
structure Callee.Injected (closures : Closures γ σ) (s : Store γ σ) (r : Registry) (c : Callee γ) : Prop where
  /-- A request that ends has resolved all keys, or those up to the first that fails. -/
  resolved : ∀ {receiver a s' ms}, Ends closures (inject · r receiver c) s a s' ms →
    (∃ e s₁ ms₁, FailInTurn closures r c.keys s e s₁ ms₁) ∨ ∃ vs s₁ ms₁, GiveInTurn closures r c.keys s vs s₁ ms₁
  /-- The first key that fails gives its error to the request, whatever the receiver, and nothing comes after it. -/
  failed : ∀ {e s₁ ms₁}, FailInTurn closures r c.keys s e s₁ ms₁ → ∀ receiver a s' ms,
    Ends closures (inject · r receiver c) s a s' ms ↔ a = .error e ∧ s' = s₁ ∧ ms = c.requestTrace r a ms₁
  /-- The values of the keys, the same for all receivers, go to the closure, and what it gives goes to the request: the
  same instance, or its error as one of resolution. -/
  ran : ∀ {vs s₁ ms₁}, GiveInTurn closures r c.keys s vs s₁ ms₁ → ∀ receiver a s' ms,
    Ends closures (inject · r receiver c) s a s' ms ↔
      ∃ x ms₂, Ends closures (runCallee closures · c (c.arguments receiver vs)) s₁ x s' ms₂ ∧
        a = x.mapError .instantiate ∧ ms = c.requestTrace r a (ms₁ ++ ms₂ ++ [.logged (c.outcome x)])
  /-- There are as many arguments as keys. -/
  arguments : ∀ {vs s₁ ms₁}, GiveInTurn closures r c.keys s vs s₁ ms₁ → ∀ receiver,
    (c.arguments receiver vs).values = vs ∧ (c.arguments receiver vs).length = c.keys.length ∧
      ∀ i, (∃ e, (c.arguments receiver vs).value i = .error e) ↔ c.keys.length ≤ i
  /-- If a key fails, then the closures that are run are those that are run for the keys. -/
  never : ∀ {e s₁ ms₁}, FailInTurn closures r c.keys s e s₁ ms₁ → ∀ {receiver a s' ms},
    Ends closures (inject · r receiver c) s a s' ms → ms.ownCalls = ms₁.ownCalls
  /-- If none fails, then one more is run. -/
  once : ∀ {vs s₁ ms₁}, GiveInTurn closures r c.keys s vs s₁ ms₁ → ∀ {receiver a s' ms},
    Ends closures (inject · r receiver c) s a s' ms → ms.ownCalls = ms₁.ownCalls ++ [(c, c.arguments receiver vs)]
  /-- Those that are run for the keys have no receiver, be it for keys that all give values, -/
  unseen_given : ∀ {vs s₁ ms₁}, GiveInTurn closures r c.keys s vs s₁ ms₁ → ∀ x ∈ ms₁.ownCalls, x.2.receiver = none
  /-- for keys of which one fails, -/
  unseen_failed : ∀ {e s₁ ms₁}, FailInTurn closures r c.keys s e s₁ ms₁ → ∀ x ∈ ms₁.ownCalls, x.2.receiver = none
  /-- or for keys that do not even come to an end. -/
  unseen : ∀ {c' a}, Goal.Runs closures (.all r c.keys) s c' a → a.receiver = none

/-- The keys are resolved in order, up to the first that fails, and if none fails the closure is run with their values,
once; only this run sees the receiver. -/
theorem parameters_injected (closures : Closures γ σ) (s : Store γ σ) (r : Registry) (c : Callee γ) :
    c.Injected closures s r := by
  have seen {x : Except ResolveError (List (Value γ))} {s₁ : Store γ σ} {ms₁ : Trace γ}
      (h : Resolves closures (.all r c.keys) s x s₁ ms₁) :
      ∃ calls, ms₁.Calls calls ∧ ms₁.ownCalls = calls ∧ ∀ x ∈ calls, x.2.receiver = none := by
    obtain ⟨calls, hcalls, hnone⟩ := h.unseen trivial
    exact ⟨calls, hcalls, hcalls.ownCalls_eq, hnone⟩
  constructor
  case resolved =>
    intro receiver a s' ms h
    obtain ⟨ms₁, hmeet, -⟩ := ends_inject_iff.1 h
    cases hmeet with
    | unresolved all => exact .inl ⟨_, _, _, all_error_iff.1 all⟩
    | run all => exact .inr ⟨_, _, _, all_ok_iff.1 all⟩
  case failed => exact fun h _ _ _ _ => ends_inject_iff_of_fail h
  case ran => exact fun h _ _ _ _ => ends_inject_iff_of_give h
  case arguments =>
    intro vs s₁ ms₁ h receiver
    have hvalues : (c.arguments receiver vs).values = vs := by cases c <;> rfl
    refine ⟨hvalues, ?_, fun i => ?_⟩
    · rw [Arguments.length, hvalues, h.length_eq]
    · rw [Arguments.value, hvalues, ← h.length_eq, ← List.getElem?_eq_none_iff]
      cases vs[i]? <;> simp
  case never =>
    intro e s₁ ms₁ h receiver a s' ms hends
    obtain ⟨-, -, rfl⟩ := (ends_inject_iff_of_fail h).1 hends
    obtain ⟨calls, hcalls, hown, -⟩ := seen (all_error_iff.2 h)
    rw [hown, (requestTrace_calls hcalls).ownCalls_eq]
  case once =>
    intro vs s₁ ms₁ h receiver a s' ms hends
    obtain ⟨x, ms₂, hx, -, rfl⟩ := (ends_inject_iff_of_give h).1 hends
    obtain ⟨calls, hcalls, hown, -⟩ := seen (all_ok_iff.2 h)
    have hinner := (hcalls.append (runCallee_calls hx)).append (Trace.Calls.nil.cons (m := .logged (c.outcome x)) id)
    rw [List.append_nil] at hinner
    rw [hown, (requestTrace_calls hinner).ownCalls_eq]
  case unseen_given =>
    intro vs s₁ ms₁ h
    obtain ⟨calls, -, rfl, hnone⟩ := seen (all_ok_iff.2 h)
    exact hnone
  case unseen_failed =>
    intro e s₁ ms₁ h
    obtain ⟨calls, -, rfl, hnone⟩ := seen (all_error_iff.2 h)
    exact hnone
  case unseen => exact fun h => receiver_of_runs h trivial

/-! ### A parameter that another one binds -/

namespace BindsNext

def app : Registry := ⟨0, "app"⟩

/-- Its closure binds the key `b`. -/
def binder : Function Bool := ⟨1, "() => 0", ⟨[]⟩, true⟩

def second : Function Bool := ⟨2, "(a, b) => b", ⟨[⟨"a", none⟩, ⟨"b", none⟩]⟩, false⟩

def reversed : Function Bool := ⟨3, "(b, a) => a", ⟨[⟨"b", none⟩, ⟨"a", none⟩]⟩, false⟩

/-- Either closure is a function's: the one binds a key to a new value and gives another one, the other gives its second
argument. -/
def closures : Closures Bool Unit where
  call
    | true, _ => .ask (.newValue (.int 2)) fun v => .ask (.bind app "b" (.constant v)) fun _ =>
        .ask (.newValue (.int 1)) fun w => .done (.ok w)
    | false, a => .done (a.value 1)
  construct _ _ := .done (.ok .unit)

def store : Store Bool Unit :=
  (Store.empty ()).bind app "a" (.provider binder true)

/-- The store after the call of the provider. -/
def called : Store Bool Unit :=
  (store.skip.bind app "b" (.constant ⟨0, .int 2⟩)).skip

def receiver : Value Bool := ⟨9, .unit⟩

theorem gives : ∃ s₁ ms₁, GiveInTurn closures app ["a", "b"] store [⟨1, .int 1⟩, ⟨0, .int 2⟩] s₁ ms₁ := by
  have hprovider : store.binding? app "a" = some (.provider binder true) := rfl
  have hprovider' : called.binding? app "a" = some (.provider binder true) := rfl
  have hbound : (called.bind app "a" (.constant ⟨1, .int 1⟩)).binding? app "b" = some (.constant ⟨0, .int 2⟩) := rfl
  have hcall : Resolves closures (.meet app (.run none (.function binder))) store (.ok ⟨1, .int 1⟩) called _ :=
    .run (x := .ok ⟨1, .int 1⟩) (.nil app store) ⟨1, rfl⟩
  have hkept := memoize_apply (f := binder) hprovider' rfl ⟨1, .int 1⟩
  have ha := (Resolves.key (.bound hprovider (.kept hcall hkept))).ends
  have hsearch : Resolves closures (.search app "b") _ _ _ _ := .bound hbound (.value rfl app "b" _)
  have hb := (Resolves.key hsearch).ends
  exact ⟨_, _, .cons ha (.cons hb (.nil _))⟩

theorem fails : ∃ ms₁, FailInTurn closures app ["b", "a"] store (.unregistered "b" "app" "") store ms₁ ∧
    ms₁.ownCalls = [] := by
  have hsearch : Resolves closures (.search app "b") store none store _ := .inherited rfl (.exhausted "b" store)
  have hb := (Resolves.key hsearch).ends
  have hfail : FailInTurn closures app ([] ++ "b" :: ["a"]) store _ store _ := .fail (.nil store) hb
  exact ⟨_, hfail, rfl⟩

/-- In the one order both keys give values, in the other the first one fails and no closure is run. -/
theorem parameters_injected_bindsNext :
    (∃ s₁ ms₁ s' ms, GiveInTurn closures app ["a", "b"] store [⟨1, .int 1⟩, ⟨0, .int 2⟩] s₁ ms₁ ∧
      Ends closures (inject · app (some receiver) (.function second)) store (.ok ⟨0, .int 2⟩) s' ms ∧
      ms.ownCalls = ms₁.ownCalls ++ [(.function second, ⟨some receiver, [⟨1, .int 1⟩, ⟨0, .int 2⟩]⟩)]) ∧
    ∃ ms, Ends closures (inject · app (some receiver) (.function reversed)) store
      (.error (.unregistered "b" "app" "")) store ms ∧ ms.ownCalls = [] := by
  obtain ⟨s₁, ms₁, hgives⟩ := gives
  obtain ⟨ms₂, hfails, hnone⟩ := fails
  have hsecond := parameters_injected closures store app (.function second)
  have hreversed := parameters_injected closures store app (.function reversed)
  have hrun : Ends closures (inject · app (some receiver) (.function second)) store (.ok ⟨0, .int 2⟩) s₁ _ :=
    (hsecond.ran hgives (some receiver) _ _ _).2 ⟨.ok ⟨0, .int 2⟩, _, ⟨0, rfl⟩, rfl, rfl⟩
  have hfail : Ends closures (inject · app (some receiver) (.function reversed)) store
      (.error (.unregistered "b" "app" "")) store _ :=
    (hreversed.failed hfails (some receiver) _ _ _).2 ⟨rfl, rfl, rfl⟩
  exact ⟨⟨s₁, ms₁, s₁, _, hgives, hrun, hsecond.once hgives hrun⟩, _, hfail, (hreversed.never hfails hfail).trans hnone⟩

end BindsNext

end Injection
