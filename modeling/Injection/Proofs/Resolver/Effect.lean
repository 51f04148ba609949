import Injection.Resolver

/-!
# Effects of runs

An effect relates the store in which a run starts, the store it leaves and its trace.  An effect that composes, and
that every activity has if what happens in it does, is the effect of every run: of the rules of resolution, of requests
and so of programs, whatever the closures do (`Effect.ActivityLaw.level_ensures`, `Effect.ActivityLaw.program`).  Most
effects are even those of every single step, and then activities need no thought (`Effect.Law`).

What a search does is left open in that statement.  If the marks of searches, provided values and memoization have
the effect as well, then a search has it too (`Effect.SearchLaw.searchFrom`), and so has everything
(`Effect.ActivityLaw.level_keeps`); any other condition on searches is shown to hold by hand.  The least of these
effects says only that steps lead from the one store to the other (`Effect.least`).

A call of a registry is an activity whose last event, if it fails, reports its error; that is all that is known of
such an event (`Effect.ActivityLaw.performWith_of_isCall`).
-/

namespace Injection

open Run

variable {γ σ α β ε : Type}

/-- The condition holds of whatever the run gives. -/
def Run.Ensures (m : Run γ σ α) (Q : Store γ σ → α → Store γ σ → Trace γ → Prop) : Prop :=
  ∀ ⦃s a s' ms⦄, m s = some (a, s', ms) → Q s a s' ms

theorem Run.outOfBound_ensures (Q : Store γ σ → α → Store γ σ → Trace γ → Prop) :
    (outOfBound : Run γ σ α).Ensures Q :=
  fun _ _ _ _ h => absurd h outOfBound_ne_some

/-- What is logged of a failure, if there is one. -/
def Trace.report : Option String → Trace γ
  | none => []
  | some message => [.logged (.reported message)]

abbrev Effect (γ σ : Type) := Store γ σ → Store γ σ → Trace γ → Prop

/-- The run has the effect whenever it ends. -/
abbrev Run.Keeps (m : Run γ σ α) (R : Effect γ σ) : Prop :=
  m.Ensures fun s _ s' ms => R s s' ms

/-- Marks that neither belong to a search nor tell of a change. -/
def Mark.IsPlain : Mark γ → Prop
  | .searching _ _ => False
  | .searched _ _ _ => False
  | .provided _ _ _ _ => False
  | .changed _ => False
  | _ => True

/-- The marks that an activity begins and ends with, requests and searches apart. -/
inductive Mark.Encloses : Mark γ → Mark γ → Prop
  | span (s : Span) : Encloses (.entered s) (.left s)
  | lock (r : Registry) : Encloses (.locked r) (.unlocked r)
  | closure (c : Callee γ) (a : Arguments γ) (x : Except InstantiateError (Value γ)) :
    Encloses (.called c a) (.returned c x)
  | threads : Encloses .forked .joined

theorem Mark.Encloses.isPlain_left {first last : Mark γ} (h : first.Encloses last) : first.IsPlain := by
  cases h <;> trivial

theorem Mark.Encloses.isPlain_right {first last : Mark γ} (h : first.Encloses last) : last.IsPlain := by
  cases h <;> trivial

namespace Effect

/-- An effect of every activity, searches apart: of each step that reports nothing, and of everything from the mark that
an activity begins with to the one that it ends with, if what happens in between has the effect. -/
structure ActivityLaw (R : Effect γ σ) : Prop where
  refl : ∀ s, R s s []
  trans : ∀ {s s' s'' ms ms'}, R s s' ms → R s' s'' ms' → R s s'' (ms ++ ms')
  event : ∀ s {e : Event}, e.level = .debug → R s s [.logged e]
  skip : ∀ s, R s s.skip []
  remember : ∀ s memory, R s { s with memory } []
  bind : ∀ s r key b, R s (s.bind r key b) [.changed (.bound r key b)]
  unbind : ∀ s r key, R s (s.unbind r key) [.changed (.unbound r key)]
  extend : ∀ {s r parent}, s.closesCycle r parent = false → R s (s.addParent r parent) [.changed (.extended r parent)]
  around : ∀ {s s' ms} {first last : Mark γ}, first.Encloses last → R s s' ms → R s s' (first :: (ms ++ [last]))
  calling : ∀ {s s' ms} c failure, R s s' ms → R s s' (.began c :: (ms ++ Trace.report failure ++ [.ended c failure]))

/-- An effect of every step of a run, the steps of searches apart. -/
structure Law (R : Effect γ σ) : Prop extends ActivityLaw R where
  plain : ∀ s {m}, m.IsPlain → R s s [m]
  event := fun s _ _ => plain s trivial
  around := fun h hms => trans (plain _ h.isPlain_left) (trans hms (plain _ h.isPlain_right))
  calling := fun c failure hms => by
    have hreport (s : Store γ σ) : R s s (Trace.report failure) := by
      cases failure with
      | none => exact refl s
      | some message => exact plain s trivial
    exact trans (plain _ (m := .began c) trivial)
      (trans (trans hms (hreport _)) (plain _ (m := .ended c failure) trivial))

/-- An effect of the steps by which a provider bound to the key gives its value. -/
structure ProviderLaw (R : Effect γ σ) (r : Registry) (key : String) : Prop where
  provided : ∀ s f v, R s s [.provided r key f v]
  memoized : ∀ {s f g cached}, s.binding? r key = some (.provider g cached) → g.same f = true →
    ∀ v, R s (s.bind r key (.constant v)) [.changed (.memoized r key v)]

/-- An effect of the steps of a search for the key from the registry on. -/
structure SearchLaw (R : Effect γ σ) (r : Registry) (key : String) : Prop extends R.ProviderLaw r key where
  searching : ∀ s, R s s [.searching r key]
  searched : ∀ s x, R s s [.searched r key x]

end Effect

/-! ### Runs of several parts -/

/-- The run has the effect up to the report that it ends with if it fails. -/
abbrev Run.KeepsReporting (m : Run γ σ (Except ε α)) (message : ε → String) (R : Effect γ σ) : Prop :=
  m.Ensures fun s x s' ms => ∃ ms', R s s' ms' ∧ ms = ms' ++ Trace.report (failure message x)

theorem Run.Keeps.reporting {R : Effect γ σ} {m : Run γ σ (Except ResolveError α)} (hm : m.Keeps R) :
    (reporting m).KeepsReporting ResolveError.message R := by
  intro s x s' ms h
  obtain ⟨y, s₁, ms₁, z, s₂, ms₂, h₁, h₂, heq⟩ := bind_eq_some.1 h
  cases heq
  cases y <;> cases h₂ <;> exact ⟨ms₁, hm h₁, rfl⟩

/-- A call of a registry that has the effect up to the report of its failure. -/
def Effect.calls (R : Effect γ σ) (c : Call) (failure : Option String) : Effect γ σ := fun s s' ms =>
  ∃ ms', R s s' ms' ∧ ms = .began c :: (ms' ++ Trace.report failure ++ [.ended c failure])

theorem Run.KeepsReporting.asCall {R : Effect γ σ} {m : Run γ σ (Except ε α)} (c : Call) {message : ε → String}
    (hm : m.KeepsReporting message R) :
    (asCall c message m).Ensures fun s x s' ms => R.calls c (failure message x) s s' ms := by
  intro s x s' ms h
  obtain ⟨ms', hx, rfl⟩ := between_eq_some.1 h
  obtain ⟨ms₁, hms, rfl⟩ := hm hx
  exact ⟨ms₁, hms, rfl⟩

namespace Effect.ActivityLaw

variable {R : Effect γ σ} (hR : R.ActivityLaw)

include hR

theorem pure (a : α) : (pure a : Run γ σ α).Keeps R := by
  intro s x s' ms h
  cases h
  exact hR.refl s

theorem read (f : Store γ σ → α) : (read f).Keeps R := by
  intro s x s' ms h
  cases h
  exact hR.refl s

theorem log {e : Event} (he : e.level = .debug) : (log e : Run γ σ Unit).Keeps R := by
  intro s x s' ms h
  cases h
  exact hR.event s he

theorem andThen {m : Run γ σ α} {f : α → Run γ σ β} (hm : m.Keeps R) (hf : ∀ a, (f a).Keeps R) :
    (m >>= f).Keeps R := by
  intro s x s' ms h
  obtain ⟨a, s₁, ms₁, b, s₂, ms₂, h₁, h₂, heq⟩ := bind_eq_some.1 h
  cases heq
  exact hR.trans (hm h₁) (hf a h₂)

theorem between {m : Run γ σ α} {first : Mark γ} {last : α → Mark γ} (h : ∀ a, first.Encloses (last a))
    (hm : m.Keeps R) : (between first m last).Keeps R := by
  intro s x s' ms hx
  obtain ⟨ms', hx', rfl⟩ := between_eq_some.1 hx
  exact hR.around (h x) (hm hx')

theorem inside {m : Run γ σ α} (span : Span) (hm : m.Keeps R) : (inside span m).Keeps R :=
  hR.between (fun _ => .span span) hm

theorem times {m : Run γ σ α} (hm : m.Keeps R) (n : Nat) : (times m n).Keeps R := by
  induction n with
  | zero => exact hR.pure _
  | succ n ih => exact hR.andThen hm fun _ => hR.andThen ih fun _ => hR.pure _

theorem newValue (data : Data γ (Value γ)) : (newValue data : Run γ σ (Value γ)).Keeps R := by
  intro s x s' ms h
  rw [newValue_apply] at h
  cases h
  exact hR.skip s

theorem bindKey (r : Registry) (key : String) (b : Binding γ) :
    (bindKey r key b : Run γ σ (Option (Binding γ))).Keeps R := by
  intro s x s' ms h
  rw [bindKey_apply] at h
  cases h
  exact hR.trans (hR.event s (e := .bound r.name key b.kind) rfl) (hR.bind s r key b)

theorem unbindKey (r : Registry) (key : String) : (unbindKey r key : Run γ σ (Option (Binding γ))).Keeps R := by
  intro s x s' ms h
  rw [unbindKey_apply] at h
  cases h
  exact hR.unbind s r key

/-- A program has the effect if the requests do. -/
theorem program {perform : (q : Request γ σ) → Run γ σ q.Answer} (h : ∀ q, (perform q).Keeps R)
    (p : Program γ σ α) : (p.run perform).Keeps R := by
  induction p with
  | done a => exact hR.pure a
  | ask q next ih => exact hR.andThen (h q) ih

/-! ### Runs that report their failures -/

theorem addParent (r parent : Registry) :
    (Run.extend r parent : Run γ σ (Except ExtendError Unit)).KeepsReporting ExtendError.message R := by
  intro s x s' ms h
  cases hc : s.closesCycle r parent with
  | true =>
    rw [extend_apply_of_closesCycle hc] at h
    cases h
    exact ⟨[], hR.refl s, rfl⟩
  | false =>
    rw [extend_apply hc] at h
    cases h
    exact ⟨_, hR.trans (hR.extend hc) (hR.event _ (e := .extended r.name parent.name) rfl), rfl⟩

/-- What follows a run that succeeds has no part in the report of its failure. -/
theorem andThenReporting {m : Run γ σ (Except ε α)} {f : Except ε α → Run γ σ (Except ε β)} {message : ε → String}
    (hm : m.KeepsReporting message R) (herror : ∀ e, f (.error e) = return .error e)
    (hok : ∀ a, (f (.ok a)).KeepsReporting message R) : (m >>= f).KeepsReporting message R := by
  intro s x s' ms h
  obtain ⟨y, s₁, ms₁, z, s₂, ms₂, h₁, h₂, heq⟩ := bind_eq_some.1 h
  cases heq
  obtain ⟨ms₁', hms₁, rfl⟩ := hm h₁
  cases y with
  | error e =>
    rw [herror] at h₂
    cases h₂
    exact ⟨ms₁', hms₁, by rw [List.append_nil]; rfl⟩
  | ok a =>
    obtain ⟨ms₂', hms₂, rfl⟩ := hok a h₂
    refine ⟨ms₁' ++ ms₂', hR.trans hms₁ hms₂, ?_⟩
    rw [Run.failure, Trace.report, List.append_nil, List.append_assoc]

theorem keeps_of_calls {m : Run γ σ α} {c : Call} {failure : α → Option String}
    (hm : m.Ensures fun s x s' ms => R.calls c (failure x) s s' ms) : m.Keeps R := by
  intro s x s' ms h
  obtain ⟨ms', hms, rfl⟩ := hm h
  exact hR.calling c (failure x) hms

end Effect.ActivityLaw

/-! ### The rules of resolution -/

/-- All that the resolver does has the effect; for its searches the condition is another one. -/
structure Resolver.Ensures (low : Resolver γ σ) (R : Effect γ σ)
    (S : Registry → String → Store γ σ → Option (Resolved γ) → Store γ σ → Trace γ → Prop) : Prop where
  resolve : ∀ r key, (low.resolve r key).Keeps R
  search : ∀ r key, (low.search r key).Ensures (S r key)
  perform : ∀ q, (low.perform q).Keeps R

/-- All that the resolver does has the effect. -/
abbrev Resolver.Keep (low : Resolver γ σ) (R : Effect γ σ) : Prop :=
  low.Ensures R fun _ _ s _ s' ms => R s s' ms

namespace Request

/-- The request is a call of a registry that reports its failure. -/
def IsCall : Request γ σ → Prop
  | .extend _ _ | .get _ _ | .getAs _ _ _ | .invoke _ _ _ | .invokeValue _ _ _ | .instantiate _ _ | .singleton _ _ _
  | .register _ _ _ => True
  | _ => False

def name : Request γ σ → Call
  | .getAs _ _ _ => .getAs
  | .invoke _ _ _ => .invoke
  | .invokeValue _ _ _ => .invokeValue
  | .instantiate _ _ => .instantiate
  | .singleton _ _ _ => .singleton
  | .register _ _ _ => .register
  | .extend _ _ => .extend
  | _ => .get

/-- The text of the error that a call gives, if it gives one. -/
def failure : (q : Request γ σ) → q.Answer → Option String
  | .extend _ _, a => Run.failure ExtendError.message a
  | .get _ _, a => Run.failure ResolveError.message a
  | .getAs _ _ _, a => Run.failure ResolveError.message a
  | .invoke _ _ _, a => Run.failure ResolveError.message a
  | .invokeValue _ _ _, a => Run.failure ResolveError.message a
  | .instantiate _ _, a => Run.failure ResolveError.message a
  | .singleton _ _ _, a => Run.failure ResolveError.message a
  | .register _ _ _, a => Run.failure ResolveError.message a
  | _, _ => none

end Request

namespace Effect.ActivityLaw

variable {R : Effect γ σ} (hR : R.ActivityLaw) {closures : Closures γ σ} {low : Resolver γ σ}

include hR

theorem resolveAll (h : ∀ r key, (low.resolve r key).Keeps R) (r : Registry) (keys : List String) :
    (Resolver.resolveAll low r keys).Keeps R := by
  induction keys with
  | nil => exact hR.pure _
  | cons key keys ih =>
    refine hR.andThen (h r key) fun x => ?_
    cases x with
    | error e => exact hR.pure _
    | ok v =>
      refine hR.andThen ih fun x => ?_
      cases x <;> exact hR.pure _

theorem runFunction (h : ∀ q, (low.perform q).Keeps R) (f : Function γ) (a : Arguments γ) :
    (Resolver.runFunction closures low f a).Keeps R :=
  hR.between (fun x => .closure _ a x) (hR.program h _)

theorem runConstructor (h : ∀ q, (low.perform q).Keeps R) (c : Class γ) (a : Arguments γ) :
    (Resolver.runConstructor closures low c a).Keeps R := by
  refine hR.between (fun x => .closure _ a x) (hR.andThen (hR.program h _) fun x => ?_)
  cases x with
  | error e => exact hR.pure _
  | ok data => exact hR.andThen (hR.newValue data) fun _ => hR.pure _

theorem finish {success : Event} (h : success.level = .debug) (x : Except InstantiateError (Value γ)) :
    (Resolver.finish success x : Run γ σ (Resolved γ)).Keeps R := by
  cases x with
  | error e => exact hR.andThen (hR.log rfl) fun _ => hR.pure _
  | ok v => exact hR.andThen (hR.log h) fun _ => hR.pure _

theorem call (hr : ∀ r key, (low.resolve r key).Keeps R) (hp : ∀ q, (low.perform q).Keeps R) (r : Registry)
    (receiver : Option (Value γ)) (f : Function γ) : (Resolver.call closures low r receiver f).Keeps R := by
  refine hR.inside _ (hR.andThen (hR.resolveAll hr r _) fun x => ?_)
  cases x with
  | error e => exact hR.pure _
  | ok values => exact hR.andThen (hR.runFunction hp f _) fun _ => hR.finish rfl _

theorem construct (hr : ∀ r key, (low.resolve r key).Keeps R) (hp : ∀ q, (low.perform q).Keeps R) (r : Registry)
    (c : Class γ) : (Resolver.construct closures low r c).Keeps R := by
  refine hR.inside _ (hR.andThen (hR.resolveAll hr r _) fun x => ?_)
  cases x with
  | error e => exact hR.pure _
  | ok values => exact hR.andThen (hR.runConstructor hp c _) fun _ => hR.finish rfl _

theorem resolveKey (h : ∀ r key, (low.search r key).Keeps R) (r : Registry) (key : String) :
    (Resolver.resolveKey low r key).Keeps R := by
  refine hR.inside _ (hR.andThen (h r key) fun x => ?_)
  cases x with
  | none => exact hR.andThen (hR.read _) fun _ => hR.andThen (hR.log rfl) fun _ => hR.pure _
  | some x => exact hR.pure _

theorem bindResult (r : Registry) (key : String) (kind : Value γ → Binding γ) {m : Run γ σ (Resolved γ)}
    (hm : m.KeepsReporting ResolveError.message R) :
    (Resolver.bindResult r key kind m).KeepsReporting ResolveError.message R := by
  refine hR.andThenReporting hm (fun _ => rfl) fun v => ?_
  intro s x s' ms h
  cases h
  exact ⟨_, hR.bindKey r key (kind v) (bindKey_apply r key (kind v) s), rfl⟩

/-- A call has the effect, and reports its failure just before it ends. -/
theorem performWith_of_isCall (hr : ∀ r key, (low.resolve r key).Keeps R) (hp : ∀ q, (low.perform q).Keeps R)
    {q : Request γ σ} (hq : q.IsCall) :
    (Resolver.performWith closures low q).Ensures fun s a s' ms => R.calls q.name (q.failure a) s s' ms := by
  have hget (r key) : (Resolver.get low r key).KeepsReporting ResolveError.message R := (hr r key).reporting
  have hinvoke (r receiver f) :
      (Resolver.invoke closures low r receiver f).KeepsReporting ResolveError.message R :=
    (hR.call hr hp r receiver f).reporting
  have hinstantiate (r c) : (Resolver.instantiate closures low r c).KeepsReporting ResolveError.message R :=
    (hR.construct hr hp r c).reporting
  cases q with
  | extend r parent => exact (hR.addParent r parent).asCall _
  | get r key => exact (hget r key).asCall _
  | getAs r key t =>
    refine Run.KeepsReporting.asCall _ (hR.andThenReporting (hget r key) (fun _ => rfl) fun v => ?_)
    exact (hR.pure _).reporting
  | invoke r receiver f => exact (hinvoke r receiver f).asCall _
  | invokeValue r receiver target =>
    refine Run.KeepsReporting.asCall _ ?_
    unfold Resolver.invokeValue
    split
    · exact hinvoke r receiver _
    · exact (hR.pure _).reporting
  | instantiate r c => exact (hinstantiate r c).asCall _
  | singleton r key c => exact (hR.bindResult r key _ (hinstantiate r c)).asCall _
  | register r key f => exact (hR.bindResult r key _ (hinvoke r none f)).asCall _
  | _ => exact hq.elim

theorem performWith (hr : ∀ r key, (low.resolve r key).Keeps R) (hp : ∀ q, (low.perform q).Keeps R)
    (q : Request γ σ) : (Resolver.performWith closures low q).Keeps R := by
  cases q with
  | newRegistry name =>
    intro s x s' ms h
    cases h
    exact hR.skip s
  | newFunction source body =>
    intro s x s' ms h
    cases h
    exact hR.skip s
  | newValue data => exact hR.newValue data
  | readMemory => exact hR.read _
  | writeMemory memory =>
    intro s x s' ms h
    cases h
    exact hR.remember s memory
  | parents r => exact hR.read _
  | has r key => exact hR.read _
  | bind r key b => exact hR.bindKey r key b
  | unbind r key => exact hR.unbindKey r key
  | call f a => exact hR.runFunction hp f a
  | construct c a => exact hR.runConstructor hp c a
  | getInThreads r key threads =>
    have hget : (Resolver.performWith closures low (.get r key)).Keeps R :=
      hR.keeps_of_calls (hR.performWith_of_isCall hr hp (q := .get r key) trivial)
    exact hR.between (fun _ => .threads) (hR.times hget threads)
  | _ => exact hR.keeps_of_calls (hR.performWith_of_isCall hr hp trivial)

theorem searchParents (h : ∀ r key, (low.search r key).Keeps R) (key : String) (ps : List Registry) :
    (Resolver.searchParents low key ps).Keeps R := by
  induction ps with
  | nil => exact hR.pure _
  | cons p ps ih =>
    refine hR.andThen (h p key) fun found => ?_
    cases found with
    | none => exact ih
    | some x =>
      cases x with
      | error e => exact hR.andThen (hR.log rfl) fun _ => ih
      | ok v => exact hR.andThen (hR.log rfl) fun _ => hR.pure _

end Effect.ActivityLaw

/-! ### Searches -/

namespace Effect.ProviderLaw

variable {R : Effect γ σ} {r : Registry} {key : String} (hS : R.ProviderLaw r key) (hR : R.ActivityLaw)
  {closures : Closures γ σ} {low : Resolver γ σ}

include hS hR

theorem memoize (f : Function γ) (v : Value γ) : (Run.memoize r key f v : Run γ σ Unit).Keeps R := by
  intro s x s' ms h
  rcases memoize_cases r key f v s with ⟨g, cached, hb, hg, hm⟩ | hm
  · cases hm.symm.trans h
    exact hR.trans (hS.memoized hb hg v) (hR.event _ (e := .memoized) rfl)
  · cases hm.symm.trans h
    exact hR.refl s

theorem provide (hr : ∀ r key, (low.resolve r key).Keeps R) (hp : ∀ q, (low.perform q).Keeps R) (f : Function γ) :
    (Resolver.provide closures low r key f).Keeps R := by
  refine hR.andThen (hR.call hr hp r none f) fun x => ?_
  cases x with
  | error e => exact hR.pure _
  | ok v =>
    refine hR.andThen ?_ fun _ => hR.pure _
    intro s x s' ms h
    cases h
    exact hS.provided s f v

theorem provideOnce (hr : ∀ r key, (low.resolve r key).Keeps R) (hp : ∀ q, (low.perform q).Keeps R) (f : Function γ) :
    (Resolver.provideOnce closures low r key f).Keeps R := by
  refine hR.between (fun _ => .lock r) (hR.andThen (hS.provide hR hr hp f) fun x => ?_)
  cases x with
  | error e => exact hR.pure _
  | ok v => exact hR.andThen (hS.memoize hR f v) fun _ => hR.pure _

theorem resolveBinding (hr : ∀ r key, (low.resolve r key).Keeps R) (hp : ∀ q, (low.perform q).Keeps R)
    (b : Binding γ) : (Resolver.resolveBinding closures low r key b).Keeps R := by
  cases b with
  | constant v => exact hR.andThen (hR.log rfl) fun _ => hR.pure _
  | singleton v => exact hR.andThen (hR.log rfl) fun _ => hR.pure _
  | transient c => exact hR.construct hr hp r c
  | provider f cached =>
    cases cached with
    | false => exact hS.provide hR hr hp f
    | true => exact hS.provideOnce hR hr hp f

/-- What happens between the two marks of a search has the effect. -/
theorem searchFrom_inner (h : low.Keep R) {s s' : Store γ σ} {x : Option (Resolved γ)} {ms : Trace γ}
    (hx : Resolver.searchFrom closures low r key s = some (x, s', ms)) :
    ∃ ms', R s s' ms' ∧ ms = .searching r key :: (ms' ++ [.searched r key x]) := by
  obtain ⟨ms', hin, rfl⟩ := between_eq_some.1 hx
  refine ⟨ms', (hR.andThen (hR.read (Store.binding? · r key)) ?_ : Run.Keeps _ R) hin, rfl⟩
  intro found
  cases found with
  | none => exact hR.andThen (hR.read _) fun _ => hR.searchParents h.search key _
  | some b => exact hR.andThen (hS.resolveBinding hR h.resolve h.perform b) fun _ => hR.pure _

end Effect.ProviderLaw

theorem Effect.SearchLaw.searchFrom {R : Effect γ σ} {r : Registry} {key : String} (hS : R.SearchLaw r key)
    (hR : R.ActivityLaw) {closures : Closures γ σ} {low : Resolver γ σ} (h : low.Keep R) :
    (Resolver.searchFrom closures low r key).Keeps R := by
  intro s x s' ms hx
  obtain ⟨ms', hms, rfl⟩ := hS.searchFrom_inner hR h hx
  exact hR.trans (hS.searching s) (hR.trans hms (hS.searched s' x))

/-! ### All levels -/

/-- If the effect follows for a key, and the condition for a search, over a level that ensures both, then every level
ensures both. -/
theorem Effect.ActivityLaw.level_ensures {R : Effect γ σ} (hR : R.ActivityLaw)
    {S : Registry → String → Store γ σ → Option (Resolved γ) → Store γ σ → Trace γ → Prop} (closures : Closures γ σ)
    (hresolve : ∀ n, (Resolver.level closures n).Ensures R S →
      ∀ r key, (Resolver.resolveKey (Resolver.level closures n) r key).Keeps R)
    (hsearch : ∀ n, (Resolver.level closures n).Ensures R S →
      ∀ r key, (Resolver.searchFrom closures (Resolver.level closures n) r key).Ensures (S r key)) (n : Nat) :
    (Resolver.level closures n).Ensures R S := by
  induction n with
  | zero => exact ⟨fun _ _ => outOfBound_ensures _, fun _ _ => outOfBound_ensures _, fun _ => outOfBound_ensures _⟩
  | succ n ih => exact ⟨hresolve n ih, hsearch n ih, hR.performWith ih.resolve ih.perform⟩

/-- If a search has the effect over a level that has it, then so has everything. -/
theorem Effect.ActivityLaw.level_keeps {R : Effect γ σ} (hR : R.ActivityLaw) (closures : Closures γ σ)
    (hsearch : ∀ n, (Resolver.level closures n).Keep R →
      ∀ r key, (Resolver.searchFrom closures (Resolver.level closures n) r key).Keeps R) (n : Nat) :
    (Resolver.level closures n).Keep R :=
  hR.level_ensures closures (fun _ h => hR.resolveKey h.search) hsearch n

/-- An effect of every step, those of searches included, is the effect of everything. -/
theorem Effect.ActivityLaw.level_keeps_of_searchLaw {R : Effect γ σ} (hR : R.ActivityLaw)
    (hS : ∀ r key, R.SearchLaw r key) (closures : Closures γ σ) (n : Nat) : (Resolver.level closures n).Keep R :=
  hR.level_keeps closures (fun _ h r key => (hS r key).searchFrom hR h) n

/-! ### The least effect -/

/-- The effect that implies all effects of steps, those of searches included: steps with this trace lead from the one
store to the other. -/
def Effect.least (s s' : Store γ σ) (ms : Trace γ) : Prop :=
  ∀ R : Effect γ σ, R.Law → (∀ r key, R.SearchLaw r key) → R s s' ms

theorem Effect.least_law : Effect.Law (Effect.least (γ := γ) (σ := σ)) where
  refl s _ hR _ := hR.refl s
  trans h h' R hR hS := hR.trans (h R hR hS) (h' R hR hS)
  skip s _ hR _ := hR.skip s
  remember s memory _ hR _ := hR.remember s memory
  bind s r key b _ hR _ := hR.bind s r key b
  unbind s r key _ hR _ := hR.unbind s r key
  extend hc _ hR _ := hR.extend hc
  plain s _ hm _ hR _ := hR.plain s hm

theorem Effect.least_searchLaw (r : Registry) (key : String) :
    Effect.SearchLaw (Effect.least (γ := γ) (σ := σ)) r key where
  searching s _ _ hS := (hS r key).searching s
  searched s x _ _ hS := (hS r key).searched s x
  provided s f v _ _ hS := (hS r key).provided s f v
  memoized hb hg v _ _ hS := (hS r key).memoized hb hg v

theorem Resolver.level_least (closures : Closures γ σ) (n : Nat) : (Resolver.level closures n).Keep Effect.least :=
  Effect.least_law.level_keeps_of_searchLaw Effect.least_searchLaw closures n

end Injection
