import Injection.Proofs.Resolver.Visiting

/-!
# Another parent

Where closures never fail, whether a lookup gives a value depends on bindings and parents alone: a registry gives a key
if it binds it to something whose parameters it gives, or if it does not bind it and one of its parents gives it
(`Store.Gives`).  Which parents are asked first, which of them fail and what is memoized on the way make no difference
(`Resolver.Resolves.succeeds_iff`).

A parent that is added keeps all bindings and all other parents, so what gives a value before gives one after it, though
not always the same one: `extend_keeps_successes`.
-/

namespace Injection

open Run

variable {γ σ : Type}

/-! ### What a registry gives -/

namespace Store

variable {s s' first : Store γ σ} {r p : Registry} {key : String}

/-- The registry has a value for the key, as far as bindings and parents go. -/
inductive Gives (s : Store γ σ) : Registry → String → Prop
  | bound {r : Registry} {key : String} {b : Binding γ} (bound : s.binding? r key = some b)
    (injected : ∀ c, b.callee? = some c → ∀ j ∈ c.keys, Gives s r j) : Gives s r key
  | inherited {r p : Registry} {key : String} (unbound : s.binding? r key = none) (parent : s.IsParent r p)
    (gives : Gives s p key) : Gives s r key

/-- More parents give more. -/
theorem Gives.mono (h : s.Gives r key) (hbindings : ∀ q k, s'.binding? q k = s.binding? q k)
    (hparents : ∀ q p, s.IsParent q p → s'.IsParent q p) : s'.Gives r key := by
  induction h with
  | bound hb _ ih => exact .bound ((hbindings _ _).trans hb) ih
  | inherited hb hp _ ih => exact .inherited ((hbindings _ _).trans hb) (hparents _ _ hp) ih

theorem Gives.addParent (h : s.Gives r key) (q p : Registry) : (s.addParent q p).Gives r key := by
  refine h.mono (fun _ _ => binding?_addParent ..) fun q' p' hp => ?_
  unfold IsParent at hp ⊢
  rw [parents_addParent]
  split
  · subst_vars
    exact List.mem_append_left _ hp
  · exact hp

/-- The store has settled, and all values that it binds are for keys that the first one gives. -/
structure Realizes (first s : Store γ σ) : Prop where
  settles : first.Settles s
  gives : ∀ {r key b}, s.binding? r key = some b → b.callee? = none → first.Gives r key

namespace Realizes

theorem refl (s : Store γ σ) : s.Realizes s where
  settles := .refl s
  gives hb hc := .bound hb fun c hc' => by
    rw [hc] at hc'
    cases hc'

theorem of_registries (h : first.Realizes s) (hs : s'.registries = s.registries) : first.Realizes s' where
  settles := h.settles.trans (.of_registries hs)
  gives hb := h.gives ((binding?_of_registries hs _ _).symm.trans hb)

/-- A provider may be replaced by a constant if the first store gives its key. -/
theorem bind (h : first.Realizes s) {f : Function γ} {cached : Bool}
    (hb : s.binding? r key = some (.provider f cached)) (hgives : first.Gives r key) (v : Value γ) :
    first.Realizes (s.bind r key (.constant v)) where
  settles := h.settles.trans (.bind hb v)
  gives {q k b} hq hc := by
    rw [binding?_bind] at hq
    by_cases heq : q = r ∧ k = key
    · obtain ⟨rfl, rfl⟩ := heq
      exact hgives
    · rw [if_neg heq] at hq
      exact h.gives hq hc

end Realizes

end Store

/-- The first store gives all that the goal needs. -/
def Goal.Given (s : Store γ σ) : Goal γ → Prop
  | .meet r (.key key) => s.Gives r key
  | .meet r (.run _ c) => ∀ j ∈ c.keys, s.Gives r j
  | .meet _ (.other _) => False
  | .search r key => s.Gives r key
  | .parents key ps => ∃ p ∈ ps, s.Gives p key
  | .attempt r _ b => ∀ c, b.callee? = some c → ∀ j ∈ c.keys, s.Gives r j
  | .all r keys => ∀ j ∈ keys, s.Gives r j

theorem Goal.Given.addParent {s : Store γ σ} {r : Registry} {d : Demand γ} (h : (Goal.meet r d).Given s)
    (q p : Registry) : (Goal.meet r d).Given (s.addParent q p) := by
  cases d with
  | key key => exact Store.Gives.addParent h q p
  | run receiver c => exact fun j hj => (h j hj).addParent q p
  | other t => exact h

/-! ### Closures that never fail -/

/-- Whenever a closure ends, it returns. -/
structure Closures.NeverFail (closures : Closures γ σ) : Prop where
  call : ∀ {body a s x s' ms},
    Resolver.Ends closures (fun low => (closures.call body a).run low.perform) s x s' ms → ∃ v, x = .ok v
  construct : ∀ {body a s x s' ms},
    Resolver.Ends closures (fun low => (closures.construct body a).run low.perform) s x s' ms → ∃ data, x = .ok data

namespace Resolver

variable {closures : Closures γ σ} {first s s' : Store γ σ} {ms : Trace γ} {g : Goal γ}

theorem runCallee_succeeds (hnever : closures.NeverFail) {c : Callee γ} {args : Arguments γ}
    {x : Except InstantiateError (Value γ)} (h : Ends closures (runCallee closures · c args) s x s' ms) :
    ∃ v, x = .ok v := by
  obtain ⟨n, h⟩ := h
  cases c with
  | function f =>
    obtain ⟨ms', h, -⟩ := between_eq_some.1 h
    exact hnever.call ⟨n, h⟩
  | constructible c =>
    obtain ⟨ms', h, -⟩ := between_eq_some.1 h
    obtain ⟨y, s₁, ms₁, z, s₂, ms₂, hdata, hnew, heq⟩ := bind_eq_some.1 h
    obtain ⟨data, rfl⟩ := hnever.construct ⟨n, hdata⟩
    cases hnew
    cases heq
    exact ⟨_, rfl⟩

/-! ### Which lookups give a value -/

/-- A lookup gives a value only if the first store gives all that it needs, and memoizes values of such keys only. -/
theorem Resolves.realizes (hclosures : closures.Detached) {a : g.Answer} (h : Resolves closures g s a s' ms)
    (hg : g.Posed s) (hs : first.Realizes s) : first.Realizes s' ∧ (g.Succeeds a → g.Given first) := by
  induction h with
  | @key r key s s' x ms _ ih =>
    obtain ⟨hs', hgiven⟩ := ih trivial hs
    refine ⟨hs', fun ⟨v, hv⟩ => hgiven ⟨v, ?_⟩⟩
    cases x with
    | none => cases hv
    | some a => exact congrArg some hv
  | other => exact ⟨hs, fun ⟨v, hv⟩ => nomatch hv⟩
  | unresolved _ ih => exact ⟨(ih trivial hs).1, fun ⟨v, hv⟩ => nomatch hv⟩
  | @run r receiver c s s₁ s' vs x ms ms' _ hx ih =>
    obtain ⟨hs₁, hgiven⟩ := ih trivial hs
    obtain ⟨n, hx⟩ := hx
    exact ⟨hs₁.of_registries ((runCallee_detached hclosures n c _).registries hx), fun _ => hgiven ⟨vs, rfl⟩⟩
  | @bound r key b s s' a ms hb _ ih =>
    obtain ⟨hs', hgiven⟩ := ih hb hs
    refine ⟨hs', fun ⟨v, hv⟩ => ?_⟩
    -- a value may have been memoized, but what is left to run is bound in the first store as well
    cases hc : b.callee? with
    | none => exact hs.gives hb hc
    | some c => exact .bound (hs.settles.of_callee hb hc) (hgiven ⟨v, Option.some.inj hv⟩)
  | @inherited r key s s' x ms hb _ ih =>
    obtain ⟨hs', hgiven⟩ := ih trivial hs
    refine ⟨hs', fun hsucceeds => ?_⟩
    obtain ⟨p, hp, hgives⟩ := hgiven hsucceeds
    exact .inherited (hs.settles.unbound_iff.1 hb) (hs.settles.isParent_eq ▸ List.mem_reverse.1 hp) hgives
  | exhausted => exact ⟨hs, fun ⟨v, hv⟩ => nomatch hv⟩
  | @found key p ps s s' v ms _ ih =>
    obtain ⟨hs', hgiven⟩ := ih trivial hs
    exact ⟨hs', fun _ => ⟨p, List.mem_cons_self, hgiven ⟨v, rfl⟩⟩⟩
  | failed _ _ ih ihrest | absent _ _ ih ihrest =>
    obtain ⟨hs', hgiven⟩ := ihrest trivial (ih trivial hs).1
    refine ⟨hs', fun hsucceeds => ?_⟩
    obtain ⟨q, hq, hgives⟩ := hgiven hsucceeds
    exact ⟨q, List.mem_cons_of_mem _ hq, hgives⟩
  | value hv =>
    refine ⟨hs, fun _ c hc => ?_⟩
    rw [Binding.callee?_eq_none_iff.2 ⟨_, hv⟩] at hc
    cases hc
  | transient _ ih | provided _ ih =>
    obtain ⟨hs', hgiven⟩ := ih trivial hs
    refine ⟨hs', fun hsucceeds c hc => ?_⟩
    cases hc
    exact hgiven hsucceeds
  | unprovided _ ih => exact ⟨(ih trivial hs).1, fun ⟨v, hv⟩ => nomatch hv⟩
  | @kept r key f s s₁ s' v ms ms' _ hm ih =>
    obtain ⟨hs₁, hgiven⟩ := ih trivial hs
    have hkeys := hgiven ⟨v, rfl⟩
    constructor
    · rcases memoize_eq_some hm with ⟨g, cached, hb, -, rfl, -⟩ | ⟨rfl, -⟩
      · refine hs₁.bind hb (.bound (hs.settles.of_callee hg rfl) fun c hc => ?_) v
        cases hc
        exact hkeys
      · exact hs₁
    · rintro - c hc
      cases hc
      exact hkeys
  | nil => exact ⟨hs, fun _ j hj => absurd hj List.not_mem_nil⟩
  | @cons r key keys s s₁ s' v x ms ms' _ _ ih ihrest =>
    obtain ⟨hs₁, hgiven⟩ := ih trivial hs
    obtain ⟨hs', hgivenrest⟩ := ihrest trivial hs₁
    refine ⟨hs', fun ⟨vs, hvs⟩ => ?_⟩
    cases x with
    | error e => cases hvs
    | ok ws => exact List.forall_mem_cons.2 ⟨hgiven ⟨v, rfl⟩, hgivenrest ⟨ws, rfl⟩⟩
  | stopped _ ih => exact ⟨(ih trivial hs).1, fun ⟨v, hv⟩ => nomatch hv⟩

/-- Where the first store gives all that a lookup needs, the lookup gives a value, if it ends. -/
theorem Resolves.succeeds (hclosures : closures.Detached) (hnever : closures.NeverFail) {a : g.Answer}
    (h : Resolves closures g s a s' ms) (hs : first.Settles s) (hgiven : g.Given first) : g.Succeeds a := by
  induction h with
  | key _ ih =>
    obtain ⟨v, rfl⟩ := ih hs hgiven
    exact ⟨v, rfl⟩
  | other => exact hgiven.elim
  | unresolved _ ih =>
    obtain ⟨vs, hvs⟩ := ih hs hgiven
    cases hvs
  | run _ hx =>
    obtain ⟨v, rfl⟩ := runCallee_succeeds hnever hx
    exact ⟨v, rfl⟩
  | bound hb _ ih =>
    obtain ⟨v, rfl⟩ := ih hs fun c hc => by
      have hfirst := hs.of_callee hb hc
      cases hgiven with
      | bound hb' hinjected =>
        cases hfirst.symm.trans hb'
        exact hinjected c hc
      | inherited hnone => cases hfirst.symm.trans hnone
    exact ⟨v, rfl⟩
  | inherited hb _ ih =>
    refine ih hs ?_
    cases hgiven with
    | bound hb' => cases (hs.unbound_iff.1 hb).symm.trans hb'
    | inherited _ hp hgives =>
      rw [← hs.isParent_eq] at hp
      exact ⟨_, List.mem_reverse.2 hp, hgives⟩
  | exhausted =>
    obtain ⟨p, hp, -⟩ := hgiven
    cases hp
  | found => exact ⟨_, rfl⟩
  | failed hp _ ih ihrest | absent hp _ ih ihrest =>
    obtain ⟨q, hq, hgives⟩ := hgiven
    rcases List.mem_cons.1 hq with rfl | hq
    -- the parent gives the key, so the search there has not come to nothing
    · obtain ⟨v, hv⟩ := ih hs hgives
      cases hv
    · exact ihrest (hs.trans (hp.settles_of_detached hclosures)) ⟨q, hq, hgives⟩
  | value => exact ⟨_, rfl⟩
  | transient _ ih => exact ih hs (hgiven _ rfl)
  | unprovided _ ih =>
    obtain ⟨v, hv⟩ := ih hs (hgiven _ rfl)
    cases hv
  | provided => exact ⟨_, rfl⟩
  | kept => exact ⟨_, rfl⟩
  | nil => exact ⟨_, rfl⟩
  | cons hfirst _ _ ihrest =>
    have hrest := fun j hj => hgiven j (List.mem_cons_of_mem _ hj)
    obtain ⟨vs, rfl⟩ := ihrest (hs.trans (hfirst.settles_of_detached hclosures)) hrest
    exact ⟨_, rfl⟩
  | stopped _ ih =>
    obtain ⟨v, hv⟩ := ih hs (hgiven _ List.mem_cons_self)
    cases hv

/-- A lookup that ends gives a value exactly if the store gives all that it needs. -/
theorem Resolves.succeeds_iff (hclosures : closures.Detached) (hnever : closures.NeverFail) {a : g.Answer}
    (h : Resolves closures g s a s' ms) (hg : g.Posed s) : g.Succeeds a ↔ g.Given s :=
  ⟨(h.realizes hclosures hg (.refl s)).2, h.succeeds hclosures hnever (.refl s)⟩

/-! ### Requests -/

variable {q : Request γ σ} {r p : Registry} {d : Demand γ}

/-- A request that ends fails exactly if the store does not give what it demands, unless a value has to be of some
type. -/
theorem error?_eq_none_iff (hclosures : closures.Detached) (hnever : closures.NeverFail) (hq : q.demand? = some (r, d))
    (htype : ¬ q.AsksType) {a : q.Answer} (h : Ends closures (·.perform q) s a s' ms) :
    q.error? a = none ↔ (Goal.meet r d).Given s := by
  obtain ⟨x, s₁, ms₁, ms₂, hmeet, hconclude, -⟩ := (ends_perform_iff_of_demand hq).1 h
  rw [error?_conclude hconclude htype, ← hmeet.succeeds_iff hclosures hnever trivial]
  cases x with
  | error e => exact ⟨nofun, fun ⟨v, hv⟩ => nomatch hv⟩
  | ok v => exact ⟨fun _ => ⟨v, rfl⟩, fun _ => rfl⟩

theorem addParent_of_ends_extend (h : Ends closures (·.perform (.extend r p)) s (.ok ()) s' ms) :
    s' = s.addParent r p := by
  obtain ⟨n, h⟩ := ends_perform_iff.1 h
  obtain ⟨ms', h, -⟩ := between_eq_some.1 h
  cases hc : s.closesCycle r p with
  | true =>
    rw [extend_apply_of_closesCycle hc] at h
    cases h
  | false =>
    rw [extend_apply hc] at h
    cases h
    rfl

/-- What succeeds before a parent is added does not fail after it. -/
theorem error?_eq_none_of_extend (hclosures : closures.Detached) (hnever : closures.NeverFail) {s₁ t t' : Store γ σ}
    {ms₁ ms₂ : Trace γ} (hextend : Ends closures (·.perform (.extend r p)) s (.ok ()) s₁ ms)
    (hq : q.demand?.isSome) (htype : ¬ q.AsksType) {a b : q.Answer}
    (ha : Ends closures (·.perform q) s a t ms₁) (hsucceeds : q.error? a = none)
    (hb : Ends closures (·.perform q) s₁ b t' ms₂) : q.error? b = none := by
  obtain ⟨⟨g, d⟩, hq⟩ := Option.isSome_iff_exists.1 hq
  have hgiven := (error?_eq_none_iff hclosures hnever hq htype ha).1 hsucceeds
  rw [error?_eq_none_iff hclosures hnever hq htype hb, addParent_of_ends_extend hextend]
  exact hgiven.addParent r p

end Resolver

open Resolver in
/-- Where closures never fail and leave registries alone, another parent makes nothing unresolvable: a lookup that
succeeds without it succeeds with it, if it ends. -/
theorem extend_keeps_successes {closures : Closures γ σ} (hclosures : closures.Detached) (hnever : closures.NeverFail)
    {s s₁ : Store γ σ} {r p : Registry} {ms : Trace γ}
    (hextend : Ends closures (·.perform (.extend r p)) s (.ok ()) s₁ ms) (q : Registry) :
    (∀ key v t ms₁, Ends closures (·.perform (.get q key)) s (.ok v) t ms₁ →
      ∀ a t' ms₂, Ends closures (·.perform (.get q key)) s₁ a t' ms₂ → ∃ w, a = .ok w) ∧
    (∀ receiver f v t ms₁, Ends closures (·.perform (.invoke q receiver f)) s (.ok v) t ms₁ →
      ∀ a t' ms₂, Ends closures (·.perform (.invoke q receiver f)) s₁ a t' ms₂ → ∃ w, a = .ok w) ∧
    (∀ c v t ms₁, Ends closures (·.perform (.instantiate q c)) s (.ok v) t ms₁ →
      ∀ a t' ms₂, Ends closures (·.perform (.instantiate q c)) s₁ a t' ms₂ → ∃ w, a = .ok w) := by
  have of_error {a : Resolved γ} (h : errorOf a = none) : ∃ w, a = .ok w := by
    cases a with
    | error e => cases h
    | ok w => exact ⟨w, rfl⟩
  refine ⟨fun key v t ms₁ hv a t' ms₂ ha => ?_, fun receiver f v t ms₁ hv a t' ms₂ ha => ?_,
    fun c v t ms₁ hv a t' ms₂ ha => ?_⟩
  all_goals exact of_error (error?_eq_none_of_extend hclosures hnever hextend rfl id hv rfl ha)

namespace DraftParent

open Resolver

def base : Registry := ⟨0, "base"⟩

def app : Registry := ⟨1, "app"⟩

def draft : Registry := ⟨2, "draft"⟩

/-- Every function makes a new instance, and so does every constructor. -/
def closures : Closures Unit Unit where
  call _ _ := .ask (.newValue .unit) fun v => .done (.ok v)
  construct _ _ := .done (.ok .unit)

theorem detached_closures : closures.Detached where
  call _ _ := ⟨trivial, fun _ => trivial⟩
  construct _ _ := trivial

theorem neverFail_closures : closures.NeverFail where
  call := by
    rintro _ _ s x s' ms ⟨n, h⟩
    cases n with
    | zero => cases h
    | succ n =>
      cases h
      exact ⟨_, rfl⟩
  construct := by
    rintro _ _ s x s' ms ⟨n, h⟩
    cases h
    exact ⟨_, rfl⟩

def port : Function Unit := ⟨3, "(host) => 0", ⟨[⟨"host", none⟩]⟩, ()⟩

def serve : Function Unit := ⟨4, "(port) => 0", ⟨[⟨"port", none⟩]⟩, ()⟩

/-- The draft binds the port as well, to a function for which there is no host. -/
def store : Store Unit Unit :=
  (((Store.empty ()).bind base "port" (.constant ⟨5, .int 80⟩)).addParent app base).bind draft "port"
    (.provider port true)

/-- With the draft as a parent, which is asked first and fails. -/
def extended : Store Unit Unit :=
  store.addParent app draft

variable {s : Store Unit Unit} {v : Value Unit} {ms : Trace Unit}

/-- The function runs once there is a port. -/
theorem ends_invoke (h : Resolves closures (.meet app (.key "port")) s (.ok v) s ms) :
    ∃ w t ms, Ends closures (·.perform (.invoke app none serve)) s (.ok w) t ms := by
  have hcall : Ends closures (runCallee closures · (.function serve) ⟨none, [v]⟩) s (.ok ⟨s.fresh, .unit⟩) s.skip _ :=
    ⟨1, rfl⟩
  have hrun : Resolves closures (.meet app (.run none (.function serve))) s ((Except.ok _).mapError .instantiate)
      s.skip _ := .run (.cons h (.nil app s)) hcall
  exact ⟨_, _, _, (ends_perform_iff_of_demand rfl).2 ⟨_, _, _, _, hrun, rfl, rfl⟩⟩

theorem resolves_port : ∃ v ms, Resolves closures (.meet app (.key "port")) store (.ok v) store ms := by
  obtain ⟨v, ms, hbase⟩ : ∃ v ms, Resolves closures (.search base "port") store (some (.ok v)) store ms :=
    ⟨_, _, .bound rfl (.value rfl _ _ _)⟩
  have happ : Resolves closures (.search app "port") store (some (.ok v)) store _ := .inherited rfl (.found hbase)
  exact ⟨v, _, .key happ⟩

theorem resolves_port_extended : ∃ v ms, Resolves closures (.meet app (.key "port")) extended (.ok v) extended ms := by
  have hhost : Resolves closures (.search draft "host") extended none extended _ := .inherited rfl (.exhausted _ _)
  have hdraft : Resolves closures (.attempt draft "port" (.provider port true)) extended (.error _) extended _ :=
    .unprovided (.unresolved (.stopped (.key hhost)))
  obtain ⟨v, ms, hbase⟩ : ∃ v ms, Resolves closures (.search base "port") extended (some (.ok v)) extended ms :=
    ⟨_, _, .bound rfl (.value rfl _ _ _)⟩
  have happ : Resolves closures (.search app "port") extended (some (.ok v)) extended _ :=
    .inherited rfl (.failed (.bound rfl hdraft) (.found hbase))
  exact ⟨v, _, .key happ⟩

/-- The draft fails, and the port is still that of the other parent. -/
theorem extend_keeps_successes_skipped :
    closures.Detached ∧ closures.NeverFail ∧
      (∃ ms, Ends closures (·.perform (.extend app draft)) store (.ok ()) extended ms) ∧
      (∃ v t ms, Ends closures (·.perform (.invoke app none serve)) store (.ok v) t ms) ∧
      ∃ a t ms, Ends closures (·.perform (.invoke app none serve)) extended a t ms ∧ ∃ w, a = .ok w := by
  have hextend : Ends closures (·.perform (.extend app draft)) store (.ok ()) extended _ :=
    ⟨1, between_eq_some.2 ⟨_, extend_apply (by decide), rfl⟩⟩
  obtain ⟨_, _, hport⟩ := resolves_port
  obtain ⟨_, _, hportExtended⟩ := resolves_port_extended
  obtain ⟨v, t, ms, hv⟩ := ends_invoke hport
  obtain ⟨w, t', ms', hw⟩ := ends_invoke hportExtended
  obtain ⟨-, hinvoke, -⟩ := extend_keeps_successes detached_closures neverFail_closures hextend app
  exact ⟨detached_closures, neverFail_closures, ⟨_, hextend⟩, ⟨v, t, ms, hv⟩, .ok w, t', ms', hw,
    hinvoke _ _ _ _ _ hv _ _ _ hw⟩

end DraftParent

end Injection
