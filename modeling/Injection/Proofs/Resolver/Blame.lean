import Injection.Proofs.Resolver.Visiting

/-!
# Whom errors blame

A lookup that fails blames the registry that was asked.  Whatever fails in a registry that it inherits from is skipped,
so an error is one of its own bindings: the key that is missing is needed by the request through bindings of the
registry itself, or the closure that failed is one of these bindings or the one the request gave
(`errors_blame_registry`).  Nothing is assumed of closures but that they set and remove no keys and extend no registries
while the request runs.
-/

namespace Injection

open Run Relation

variable {γ σ : Type}

/-- The last closure that ran is this one, it ran for the registry, and it failed. -/
def Trace.FailedLast (r : Registry) (c : Callee γ) (cause : InstantiateError) (ms : Trace γ) : Prop :=
  ∃ ms₁ ms₂, ms = ms₁ ++ [.returned c (.error cause), .logged (.failed cause.message), .left (c.span r)] ++ ms₂ ∧
    ∀ m ∈ ms₂, ¬ m.IsOfClosure

namespace Trace.FailedLast

variable {r : Registry} {c : Callee γ} {cause : InstantiateError} {ms ms' : Trace γ}

theorem append_left (h : ms'.FailedLast r c cause) (ms : Trace γ) : FailedLast r c cause (ms ++ ms') := by
  obtain ⟨ms₁, ms₂, rfl, hms₂⟩ := h
  exact ⟨ms ++ ms₁, ms₂, by simp, hms₂⟩

theorem append_right (h : ms.FailedLast r c cause) (hms' : ∀ m ∈ ms', ¬ m.IsOfClosure) :
    FailedLast r c cause (ms ++ ms') := by
  obtain ⟨ms₁, ms₂, rfl, hms₂⟩ := h
  refine ⟨ms₁, ms₂ ++ ms', by simp, fun m hm => ?_⟩
  rcases List.mem_append.1 hm with hm | hm
  · exact hms₂ m hm
  · exact hms' m hm

end Trace.FailedLast

namespace Store

variable {s s' : Store γ σ} {r : Registry} {d d' : Demand γ} {ms ms' : Trace γ} {e : ResolveError}

/-- Meeting the one demand on the registry takes meeting the other: a key takes what the registry itself runs for it,
and that takes the keys that it injects. -/
inductive Leads (s : Store γ σ) (r : Registry) : Demand γ → Demand γ → Prop
  | bound {key : String} {b : Binding γ} {c : Callee γ} (hb : s.binding? r key = some b) (hc : b.callee? = some c) :
    Leads s r (.key key) (.run none c)
  | injected {receiver : Option (Value γ)} {c : Callee γ} {j : String} (hj : j ∈ c.keys) :
    Leads s r (.run receiver c) (.key j)

/-- The error is due to what the demand leads to in the registry itself. -/
def Blames (s : Store γ σ) (r : Registry) (d : Demand γ) (ms : Trace γ) : ResolveError → Prop
  | .unregistered key registry ancestors =>
    registry = r.name ∧ ancestors = s.ancestors r ∧ ReflTransGen (s.Leads r) d (.key key) ∧ s.binding? r key = none
  | .instantiate cause => ∃ receiver c, ReflTransGen (s.Leads r) d (.run receiver c) ∧ ms.FailedLast r c cause
  | .notCallable t => d = .other t
  | .incorrectType _ _ _ => False

theorem Settles.leads (h : s.Settles s') (hd : s'.Leads r d d') : s.Leads r d d' := by
  cases hd with
  | bound hb hc => exact .bound (h.of_callee hb hc) hc
  | injected hj => exact .injected hj

namespace Blames

/-- The blame is the same from a demand that leads to the first one. -/
theorem lead (h : s.Blames r d' ms e) (hd : s.Leads r d d') : s.Blames r d ms e := by
  cases e with
  | unregistered key registry ancestors =>
    obtain ⟨hname, hancestors, hreach, hb⟩ := h
    exact ⟨hname, hancestors, hreach.head hd, hb⟩
  | instantiate cause =>
    obtain ⟨receiver, c, hreach, hfailed⟩ := h
    exact ⟨receiver, c, hreach.head hd, hfailed⟩
  | notCallable t =>
    cases h
    cases hd
  | incorrectType => exact h

/-- The blame is the same in the store that has settled since. -/
theorem of_settles (h : s'.Blames r d ms e) (hs : s.Acyclic) (hsettles : s.Settles s') : s.Blames r d ms e := by
  have reach {d' : Demand γ} (hd : ReflTransGen (s'.Leads r) d d') : ReflTransGen (s.Leads r) d d' :=
    hd.lift id fun _ _ => hsettles.leads
  cases e with
  | unregistered key registry ancestors =>
    obtain ⟨hname, hancestors, hreach, hb⟩ := h
    exact ⟨hname, hancestors.trans (hsettles.ancestors_eq hs r), reach hreach, hsettles.unbound_iff.1 hb⟩
  | instantiate cause =>
    obtain ⟨receiver, c, hreach, hfailed⟩ := h
    exact ⟨receiver, c, reach hreach, hfailed⟩
  | notCallable t => exact h
  | incorrectType => exact h

theorem append_left (h : s.Blames r d ms' e) (ms : Trace γ) : s.Blames r d (ms ++ ms') e := by
  cases e with
  | instantiate cause =>
    obtain ⟨receiver, c, hreach, hfailed⟩ := h
    exact ⟨receiver, c, hreach, hfailed.append_left ms⟩
  | _ => exact h

theorem append_right (h : s.Blames r d ms e) (hms' : ∀ m ∈ ms', ¬ m.IsOfClosure) : s.Blames r d (ms ++ ms') e := by
  cases e with
  | instantiate cause =>
    obtain ⟨receiver, c, hreach, hfailed⟩ := h
    exact ⟨receiver, c, hreach, hfailed.append_right hms'⟩
  | _ => exact h

/-- Marks around a run that tell of no closure make no difference. -/
theorem around (h : s.Blames r d ms e) (m : Mark γ) (hms' : ∀ m ∈ ms', ¬ m.IsOfClosure) :
    s.Blames r d (m :: (ms ++ ms')) e :=
  (h.append_right hms').append_left [m]

end Blames

end Store

/-! ### All errors -/

/-- If the goal fails, then through what it asks of the registry; a walk over parents does not fail, and a search finds
nothing only for a key that its registry does not bind. -/
def Goal.Faults (s : Store γ σ) (ms : Trace γ) : (g : Goal γ) → g.Answer → Prop
  | .meet r d, a => ∀ e, a = .error e → s.Blames r d ms e
  | .search r key, x => (x = none → s.binding? r key = none) ∧ ∀ e, x = some (.error e) → s.Blames r (.key key) ms e
  | .parents _ _, x => ∀ e, x ≠ some (.error e)
  | .attempt r _ b, a => ∀ e, a = .error e → ∃ c, b.callee? = some c ∧ s.Blames r (.run none c) ms e
  | .all r keys, x => ∀ e, x = .error e → ∃ j ∈ keys, s.Blames r (.key j) ms e

namespace Resolver

variable {closures : Closures γ σ} {s s' : Store γ σ} {ms : Trace γ}

/-- The mark of a closure's result is the last of its run. -/
theorem returned_of_runCallee {c : Callee γ} {args : Arguments γ} {x : Except InstantiateError (Value γ)}
    (h : Ends closures (runCallee closures · c args) s x s' ms) : ∃ ms₀, ms = ms₀ ++ [.returned c x] := by
  have last (m : Mark γ) (ms' : Trace γ) :
      ∃ ms₀, m :: (ms' ++ [.returned c x]) = ms₀ ++ [Mark.returned c x] := ⟨m :: ms', rfl⟩
  obtain ⟨n, h⟩ := h
  cases c with
  | function f =>
    obtain ⟨ms', -, rfl⟩ := between_eq_some.1 h
    exact last _ ms'
  | constructible c =>
    obtain ⟨ms', -, rfl⟩ := between_eq_some.1 h
    exact last _ ms'

/-- Where nothing but memoization happens, all errors are due to what the registry asked binds itself. -/
theorem Resolves.faults (hs : s.Acyclic) {g : Goal γ} {a : g.Answer} (h : Resolves closures g s a s' ms)
    (hms : ms.OnlyMemoizes) : g.Faults s ms a := by
  induction h with
  | @key r key s s' x ms hsearch ih =>
    simp only [Trace.onlyMemoizes_cons, Trace.onlyMemoizes_append] at hms
    obtain ⟨-, ⟨hms, -⟩, -⟩ := hms
    obtain ⟨hnone, hsome⟩ := ih hs hms
    intro e he
    cases x with
    | none =>
      cases he
      exact ⟨rfl, (hsearch.settles hms).ancestors_eq hs r, .refl, hnone rfl⟩
    | some a =>
      have hblame := hsome e (congrArg some he)
      exact (hblame.append_right (by simp [Resolver.missed])).around _ (by simp [Mark.IsOfClosure])
  | other r t s =>
    intro e he
    cases he
    rfl
  | unresolved _ ih =>
    simp only [Trace.onlyMemoizes_cons, Trace.onlyMemoizes_append] at hms
    intro e he
    cases he
    obtain ⟨j, hj, hblame⟩ := ih hs hms.2.1 _ rfl
    exact (hblame.lead (.injected hj)).around _ (by simp [Mark.IsOfClosure])
  | @run r receiver c s s₁ s' vs x ms ms' _ hx ih =>
    intro e he
    cases x with
    | ok v => cases he
    | error cause =>
      cases he
      obtain ⟨ms₀, rfl⟩ := returned_of_runCallee hx
      exact ⟨receiver, c, .refl, .entered (c.span r) :: (ms ++ ms₀), [], by simp [Callee.outcome], by simp⟩
  | bound hb _ ih =>
    simp only [Trace.onlyMemoizes_cons, Trace.onlyMemoizes_append] at hms
    refine ⟨fun h => absurd h (Option.some_ne_none _), fun e he => ?_⟩
    cases he
    obtain ⟨c, hc, hblame⟩ := ih hs hms.2.1 e rfl
    exact (hblame.lead (.bound hb hc)).around _ (by simp [Mark.IsOfClosure])
  | inherited hb _ ih =>
    simp only [Trace.onlyMemoizes_cons, Trace.onlyMemoizes_append] at hms
    exact ⟨fun _ => hb, fun e he => absurd he (ih hs hms.2.1 e)⟩
  | exhausted | found =>
    intro e he
    cases he
  | failed hp _ _ ihrest =>
    simp only [Trace.onlyMemoizes_cons, Trace.onlyMemoizes_append] at hms
    exact ihrest ((hp.settles hms.1).acyclic hs) hms.2.2
  | absent hp _ _ ihrest =>
    rw [Trace.onlyMemoizes_append] at hms
    exact ihrest ((hp.settles hms.1).acyclic hs) hms.2
  | value =>
    intro e he
    cases he
  | transient _ ih => exact fun e he => ⟨_, rfl, ih hs hms e he⟩
  | @unprovided r key f cached _ _ e _ _ ih =>
    intro e' he
    cases cached with
    | false => exact ⟨_, rfl, ih hs hms e' he⟩
    | true =>
      simp only [locking, if_true, Trace.onlyMemoizes_cons, Trace.onlyMemoizes_append] at hms
      exact ⟨_, rfl, (ih hs hms.2.1 e' he).around _ (by simp [Mark.IsOfClosure])⟩
  | provided | kept | nil =>
    intro e he
    cases he
  | @cons r key keys s s₁ s' v x ms ms' hfirst _ _ ihrest =>
    rw [Trace.onlyMemoizes_append] at hms
    have hsettles := hfirst.settles hms.1
    intro e he
    cases x with
    | ok vs => cases he
    | error e' =>
      cases he
      obtain ⟨j, hj, hblame⟩ := ihrest (hsettles.acyclic hs) hms.2 e rfl
      exact ⟨j, List.mem_cons_of_mem _ hj, (hblame.of_settles hs hsettles).append_left ms⟩
  | stopped _ ih =>
    intro e he
    cases he
    exact ⟨_, List.mem_cons_self, ih hs hms _ rfl⟩

end Resolver

/-- A request that fails is told of its own registry: of a key that what it asks for needs there and that nothing is
found for, with that registry's name and ancestors, or of the failure of a closure that what it asks for runs there. -/
theorem errors_blame_registry {closures : Closures γ σ} {s : Store γ σ} (hs : s.Reachable) {q : Request γ σ}
    {r : Registry} {d : Demand γ} (hq : q.demand? = some (r, d)) {a : q.Answer} {s' : Store γ σ} {ms : Trace γ}
    (h : Resolver.Ends closures (·.perform q) s a s' ms) (hms : ms.OnlyMemoizes) {e : ResolveError}
    (he : q.error? a = some e) :
    s.Blames r d ms e ∨ ∃ key t t', q = .getAs r key t ∧ e = .incorrectType key t t' := by
  obtain ⟨x, s₁, ms₁, ms₂, hmeet, hconclude, rfl⟩ := (Resolver.ends_perform_iff_of_demand hq).1 h
  simp only [Trace.onlyMemoizes_cons, Trace.onlyMemoizes_append] at hms
  rcases Resolver.conclude_error hconclude he with rfl | ⟨r', key, t, v, rfl, -, rfl⟩
  · obtain ⟨-, hwork⟩ := Resolver.conclude_unbound hconclude fun _ => he ▸ rfl
    have hblame := hmeet.faults hs.acyclic hms.2.1 e rfl
    exact .inl (hblame.around _ fun m hm hclosure => Trace.notMem_of_work hwork hclosure.isWork hm)
  · cases hq
    exact .inr ⟨key, t, v.type, rfl, rfl⟩

/-! ### A parent that is not blamed -/

namespace FailingParent

open Resolver

def base : Registry := ⟨0, "base"⟩

def app : Registry := ⟨1, "app"⟩

/-- Every closure fails. -/
def closures : Closures Unit Unit where
  call _ _ := .done (.error (.custom "closed"))
  construct _ _ := .done (.error (.custom "closed"))

def port : Function Unit := ⟨2, "() => 0", ⟨[]⟩, ()⟩

def server : Function Unit := ⟨3, "(port) => 0", ⟨[⟨"port", none⟩]⟩, ()⟩

/-- What `app` binds needs a key that only its parent binds, to a provider that fails. -/
def store : Store Unit Unit :=
  (((Store.empty ()).bind base "port" (.provider port true)).bind app "server" (.provider server true)).addParent app
    base

theorem reachable_store : store.Reachable := by
  refine ⟨(), .tail (.tail (.single (.bound _ base "port" _)) (.bound _ app "server" _)) (.extended ?_)⟩
  decide

/-- The search from `app` skips its parent, in which the provider failed. -/
theorem resolves_port : ∃ ms, Resolves closures (.meet app (.key "port")) store
    (.error (.unregistered "port" "app" "[\x22base\x22]")) store ms ∧ ms.OnlyMemoizes := by
  have happ : store.binding? app "port" = none := by
    simp only [store, Store.binding?_addParent, Store.binding?_bind]
    rfl
  have hbase : store.binding? base "port" = some (.provider port true) := by
    simp only [store, Store.binding?_addParent, Store.binding?_bind]
    rfl
  have hcall : Resolves closures (.meet base (.run none (.function port))) store
      (.error (.instantiate (.custom "closed"))) store _ :=
    .run (x := .error (.custom "closed")) (.nil base store) ⟨1, rfl⟩
  have hparents : Resolves closures (.parents "port" [base]) store none store _ :=
    .failed (.bound hbase (.unprovided hcall)) (.exhausted "port" store)
  exact ⟨_, .key (.inherited happ hparents), by simp [locking, missed]⟩

theorem get_server : ∃ ms, Ends closures (·.perform (.get app "server")) store
    (.error (.unregistered "port" "app" "[\x22base\x22]")) store ms ∧ ms.OnlyMemoizes := by
  have hb : store.binding? app "server" = some (.provider server true) := by
    simp only [store, Store.binding?_addParent, Store.binding?_bind]
    rfl
  obtain ⟨ms, hport, hms⟩ := resolves_port
  have hget : Resolves closures (.meet app (.key "server")) store
      (.error (.unregistered "port" "app" "[\x22base\x22]")) store _ :=
    .key (.bound hb (.unprovided (.unresolved (.stopped hport))))
  refine ⟨_, (ends_perform_iff_of_demand rfl).2 ⟨_, store, _, _, hget, rfl, rfl⟩, ?_⟩
  simp [locking, missed, hms]

/-- The request fails for want of a key that `app` needs, though its parent binds it. -/
theorem errors_blame_registry_app :
    store.Reachable ∧ (store.binding? base "port").isSome ∧
      ∃ ms, Ends closures (·.perform (.get app "server")) store
          (.error (.unregistered "port" "app" "[\x22base\x22]")) store ms ∧ ms.OnlyMemoizes ∧
        ReflTransGen (store.Leads app) (.key "server") (.key "port") ∧ store.binding? app "port" = none := by
  obtain ⟨ms, hget, hms⟩ := get_server
  have hmain := errors_blame_registry (q := .get app "server") reachable_store rfl hget hms rfl
  obtain ⟨-, -, hreach, hb⟩ | ⟨key, t, t', hq, -⟩ := hmain
  · exact ⟨reachable_store, rfl, ms, hget, hms, hreach, hb⟩
  · cases hq

end FailingParent

end Injection
