import Injection.Proofs.Resolver.Visiting

/-!
# Lookups are local

Where closures leave registries alone, a lookup sees and changes nothing but the registry that is asked and those it
inherits from.  Two stores that agree on a closed set of keys in registries give the same answers there, with the same
trace, and agree on it afterwards (`Resolves.twin`).

If the registry does not bind the key itself, the set need not hold its other bindings: what is found in a parent has
its parameters resolved there, and a child does not override them.  Both cases make `get_local`.
-/

namespace Injection

open Run Relation

variable {γ σ : Type}

/-! ### Agreement -/

namespace Store

variable {s s' t t' : Store γ σ} {T : Registry → String → Prop} {r : Registry} {key : String}

/-- The stores agree on the bindings in the set, on what its registries inherit from, on what closures remember and on
the next identity. -/
structure Agree (T : Registry → String → Prop) (s t : Store γ σ) : Prop where
  bindings : ∀ {r key}, T r key → t.binding? r key = s.binding? r key
  parents : ∀ {r key p}, T r key → ReflTransGen s.IsParent r p → t.parents p = s.parents p
  fresh : t.fresh = s.fresh
  memory : t.memory = s.memory

/-- Registries that have the same parents all the way up have the same registries above them. -/
private theorem above_of_parents_eq (h : ∀ p, ReflTransGen s.IsParent r p → t.parents p = s.parents p) {p : Registry}
    (hp : ReflTransGen t.IsParent r p) : ReflTransGen s.IsParent r p := by
  induction hp with
  | refl => exact .refl
  | tail _ hq ih =>
    unfold IsParent at hq
    rw [h _ ih] at hq
    exact ih.tail hq

private theorem lineagesWithin_eq_of_parents_eq (n : Nat)
    (h : ∀ p, ReflTransGen s.IsParent r p → t.parents p = s.parents p) :
    t.lineagesWithin n r = s.lineagesWithin n r := by
  induction n generalizing r with
  | zero => rfl
  | succ n ih =>
    unfold lineagesWithin
    rw [h r .refl]
    exact List.map_congr_left fun p hp => by rw [ih fun q hq => h q (.head hp hq)]

/-- The text of what a registry inherits from depends on the registries above it only. -/
theorem Acyclic.ancestors_eq_of_parents_eq (hs : s.Acyclic) (ht : t.Acyclic)
    (h : ∀ p, ReflTransGen s.IsParent r p → t.parents p = s.parents p) : t.ancestors r = s.ancestors r := by
  have hl : t.lineages r = s.lineages r := by
    unfold lineages
    -- as in any two stores, the larger of the two bounds serves both
    rw [← lineagesWithin_eq (ht.height r) (Nat.le_max_right s.registries.size _), lineagesWithin_eq_of_parents_eq _ h,
      lineagesWithin_eq (hs.height r) (Nat.le_max_left _ _)]
  unfold ancestors
  rw [hl]

namespace Agree

theorem symm (h : s.Agree T t) : t.Agree T s where
  bindings hT := (h.bindings hT).symm
  parents hT hp := (h.parents hT (above_of_parents_eq (fun _ => h.parents hT) hp)).symm
  fresh := h.fresh.symm
  memory := h.memory.symm

theorem closed (h : s.Agree T t) (hT : s.Closed T) : t.Closed T where
  injected ht hb hc hj := hT.injected ht ((h.bindings ht).symm.trans hb) hc hj
  inherited ht hb hp := by
    unfold IsParent at hp
    rw [h.parents ht .refl] at hp
    exact hT.inherited ht ((h.bindings ht).symm.trans hb) hp

/-- A detached closure runs alike in both stores. -/
theorem run {α : Type} {m : Run γ σ α} (hm : m.Detached) {a : α} {ms : Trace γ} (h : s.Agree T t)
    (hrun : m s = some (a, s', ms)) : ∃ t', m t = some (a, t', ms) ∧ s'.Agree T t' := by
  refine ⟨{ s' with registries := t.registries }, hm.transfer h.fresh h.memory hrun, ?_⟩
  have hs := hm.registries hrun
  constructor
  case bindings =>
    intro r key hT
    rw [binding?_of_registries hs]
    exact h.bindings hT
  case parents =>
    intro r key p hT hp
    rw [(Settles.of_registries hs).isParent_eq] at hp
    rw [parents_of_registries hs]
    exact h.parents hT hp
  case fresh => rfl
  case memory => rfl

/-- The same binding is made in both stores. -/
theorem bind (h : s.Agree T t) (r : Registry) (key : String) (b : Binding γ) :
    (s.bind r key b).Agree T (t.bind r key b) := by
  have hparent : (s.bind r key b).IsParent = s.IsParent := by
    funext q p
    unfold IsParent
    rw [parents_bind]
  constructor
  case bindings =>
    intro q k hT
    rw [binding?_bind, binding?_bind, h.bindings hT]
  case parents =>
    intro q k p hT hp
    rw [hparent] at hp
    rw [parents_bind, parents_bind, h.parents hT hp]
  case fresh => exact h.fresh
  case memory => exact h.memory

end Agree

end Store

/-! ### Two runs -/

namespace Resolver

variable {closures : Closures γ σ} {s s' t : Store γ σ} {ms : Trace γ} {T : Registry → String → Prop}

/-- A goal within a closed set is met alike in stores that agree on the set, and they agree on it afterwards. -/
theorem Resolves.twin (hclosures : closures.Detached) {g : Goal γ} {a : g.Answer} (h : Resolves closures g s a s' ms)
    (hs : s.Acyclic) (ht : t.Acyclic) (hg : g.Posed s) (hT : s.Closed T) (hw : g.Within T) (hst : s.Agree T t) :
    ∃ t', Resolves closures g t a t' ms ∧ s'.Agree T t' := by
  have after {g : Goal γ} {s s' : Store γ σ} {a : g.Answer} {ms : Trace γ} (h : Resolves closures g s a s' ms) :
      s.Settles s' := h.settles_of_detached hclosures
  induction h generalizing t with
  | @key r key s s' x ms hsearch ih =>
    obtain ⟨t', hsearch', hst'⟩ := ih hs ht trivial hT hw hst
    have hancestors : t'.ancestors r = s'.ancestors r :=
      ((after hsearch).acyclic hs).ancestors_eq_of_parents_eq ((after hsearch').acyclic ht) fun _ hp =>
        hst'.parents hw hp
    have hunregistered : unregisteredIn t' r key = unregisteredIn s' r key := by
      unfold unregisteredIn
      rw [hancestors]
    have hget := Resolves.key hsearch'
    have hmissed : Resolver.missed t' r key x = Resolver.missed s' r key x := by
      cases x with
      | none => simp only [Resolver.missed, hunregistered]
      | some a => rfl
    rw [hunregistered, hmissed] at hget
    exact ⟨t', hget, hst'⟩
  | other r type s => exact ⟨t, .other r type t, hst⟩
  | unresolved _ ih =>
    obtain ⟨t', hall, hst'⟩ := ih hs ht trivial hT hw hst
    exact ⟨t', .unresolved hall, hst'⟩
  | run _ hx ih =>
    obtain ⟨t₁, hall, hst₁⟩ := ih hs ht trivial hT hw hst
    obtain ⟨n, hx⟩ := hx
    obtain ⟨t', hx', hst'⟩ := hst₁.run (runCallee_detached hclosures n _ _) hx
    exact ⟨t', .run hall ⟨n, hx'⟩, hst'⟩
  | bound hb _ ih =>
    obtain ⟨t', hattempt, hst'⟩ := ih hs ht hb hT hw hst
    exact ⟨t', .bound ((hst.bindings hw).trans hb) hattempt, hst'⟩
  | inherited hb _ ih =>
    obtain ⟨t', hparents, hst'⟩ := ih hs ht trivial hT (fun p hp => hT.inherited hw hb (List.mem_reverse.1 hp)) hst
    rw [← hst.parents hw .refl] at hparents
    exact ⟨t', .inherited ((hst.bindings hw).trans hb) hparents, hst'⟩
  | exhausted key s => exact ⟨t, .exhausted key t, hst⟩
  | found _ ih =>
    obtain ⟨t', hsearch, hst'⟩ := ih hs ht trivial hT (hw _ List.mem_cons_self) hst
    exact ⟨t', .found hsearch, hst'⟩
  | failed hp _ ih ihrest =>
    obtain ⟨t₁, hp', hst₁⟩ := ih hs ht trivial hT (hw _ List.mem_cons_self) hst
    obtain ⟨t', hrest, hst'⟩ := ihrest ((after hp).acyclic hs) ((after hp').acyclic ht) trivial (hT.settles (after hp))
      (fun q hq => hw q (List.mem_cons_of_mem _ hq)) hst₁
    exact ⟨t', .failed hp' hrest, hst'⟩
  | absent hp _ ih ihrest =>
    obtain ⟨t₁, hp', hst₁⟩ := ih hs ht trivial hT (hw _ List.mem_cons_self) hst
    obtain ⟨t', hrest, hst'⟩ := ihrest ((after hp).acyclic hs) ((after hp').acyclic ht) trivial (hT.settles (after hp))
      (fun q hq => hw q (List.mem_cons_of_mem _ hq)) hst₁
    exact ⟨t', .absent hp' hrest, hst'⟩
  | value hv r key s => exact ⟨t, .value hv r key t, hst⟩
  | transient _ ih =>
    obtain ⟨t', hrun, hst'⟩ := ih hs ht trivial hT (fun j hj => hT.injected hw hg rfl hj) hst
    exact ⟨t', .transient hrun, hst'⟩
  | unprovided _ ih =>
    obtain ⟨t', hrun, hst'⟩ := ih hs ht trivial hT (fun j hj => hT.injected hw hg rfl hj) hst
    exact ⟨t', .unprovided hrun, hst'⟩
  | provided _ ih =>
    obtain ⟨t', hrun, hst'⟩ := ih hs ht trivial hT (fun j hj => hT.injected hw hg rfl hj) hst
    exact ⟨t', .provided hrun, hst'⟩
  | @kept r key f s s₁ s' v ms ms' hrun hm ih =>
    obtain ⟨t₁, hrun', hst₁⟩ := ih hs ht trivial hT (fun j hj => hT.injected hw hg rfl hj) hst
    -- the provider is still bound in both stores, so both keep the value
    have hb : s₁.binding? r key = some (.provider f true) := (hrun.keeps_callee hclosures hs hg rfl).trans hg
    have hsame : f.same f = true := by simp [Function.same]
    rw [memoize_apply hb hsame] at hm
    cases hm
    exact ⟨_, .kept hrun' (memoize_apply ((hst₁.bindings hw).trans hb) hsame v), hst₁.bind r key _⟩
  | nil r s => exact ⟨t, .nil r t, hst⟩
  | cons hfirst _ ih ihrest =>
    obtain ⟨t₁, hfirst', hst₁⟩ := ih hs ht trivial hT (hw _ List.mem_cons_self) hst
    obtain ⟨t', hrest, hst'⟩ := ihrest ((after hfirst).acyclic hs) ((after hfirst').acyclic ht) trivial
      (hT.settles (after hfirst)) (fun j hj => hw j (List.mem_cons_of_mem _ hj)) hst₁
    exact ⟨t', .cons hfirst' hrest, hst'⟩
  | stopped _ ih =>
    obtain ⟨t', hfirst, hst'⟩ := ih hs ht trivial hT (hw _ List.mem_cons_self) hst
    exact ⟨t', .stopped hfirst, hst'⟩

end Resolver

/-! ### Getting a key -/

/-- The key in the registry, and all keys in those that it inherits from. -/
def Store.Above (s : Store γ σ) (r : Registry) (key : String) (p : Registry) (k : String) : Prop :=
  TransGen s.IsParent r p ∨ p = r ∧ k = key

theorem Store.above_closed {s : Store γ σ} {r : Registry} {key : String} (hb : s.binding? r key = none) :
    s.Closed (s.Above r key) := by
  constructor
  case injected =>
    rintro p k b c j (hp | ⟨rfl, rfl⟩) hb' - -
    · exact .inl hp
    · rw [hb] at hb'
      cases hb'
  case inherited =>
    rintro p k q (hp | ⟨rfl, -⟩) - hq
    · exact .inl (hp.tail hq)
    · exact .inl (.single hq)

/-- Parents are the same, and so are bindings outside the set. -/
structure Store.SameOutside (T : Registry → String → Prop) (s s' : Store γ σ) : Prop where
  parents : ∀ p, s'.parents p = s.parents p
  bindings : ∀ {p key}, ¬ T p key → s'.binding? p key = s.binding? p key

/-- Whatever getting the key gives in the first store, it gives in the second: the same result with the same trace.  The
stores left agree on the set, and nothing else has changed in either. -/
def Resolver.GetsAlike (closures : Closures γ σ) (r : Registry) (key : String) (T : Registry → String → Prop)
    (s t : Store γ σ) : Prop :=
  ∀ a s' ms, Ends closures (·.perform (.get r key)) s a s' ms →
    ∃ t', Ends closures (·.perform (.get r key)) t a t' ms ∧ s'.Agree T t' ∧ s.SameOutside T s' ∧ t.SameOutside T t'

theorem Resolver.getsAlike {closures : Closures γ σ} (hclosures : closures.Detached) {s t : Store γ σ}
    (hs : s.Acyclic) (ht : t.Acyclic) {r : Registry} {key : String} {T : Registry → String → Prop} (hT : s.Closed T)
    (hkey : T r key) (hst : s.Agree T t) : GetsAlike closures r key T s t := by
  have outside {s s' : Store γ σ} {a : Resolved γ} {ms : Trace γ} (hT : s.Closed T)
      (h : Resolves closures (.meet r (.key key)) s a s' ms) : s.SameOutside T s' :=
    ⟨(h.settles_of_detached hclosures).parents, fun hp => h.unchanged_outside hclosures trivial hT hkey hp⟩
  intro a s' ms h
  obtain ⟨x, s₁, ms₁, ms₂, hmeet, hconclude, rfl⟩ := (ends_perform_iff_of_demand rfl).1 h
  cases (conclude_get r key x s₁).symm.trans hconclude
  obtain ⟨t', hmeet', hst'⟩ := hmeet.twin hclosures hs ht trivial hT hkey hst
  refine ⟨t', (ends_perform_iff_of_demand rfl).2 ⟨_, t', ms₁, _, hmeet', conclude_get r key _ t', rfl⟩, hst', ?_, ?_⟩
  · exact outside hT hmeet
  · exact outside (hst.closed hT) hmeet'

/-- Getting a key is the same in stores that agree on the registry and on all that it inherits from, and changes nothing
else.  A key that the registry does not bind is the same even where the stores differ in all else that it binds. -/
theorem get_local {closures : Closures γ σ} (hclosures : closures.Detached) {s t : Store γ σ} (hs : s.Reachable)
    (ht : t.Reachable) (r : Registry) (key : String) :
    (s.Agree (s.Chain r) t →
      Resolver.GetsAlike closures r key (s.Chain r) s t ∧ Resolver.GetsAlike closures r key (s.Chain r) t s) ∧
    (s.binding? r key = none → s.Agree (s.Above r key) t →
      Resolver.GetsAlike closures r key (s.Above r key) s t ∧
        Resolver.GetsAlike closures r key (s.Above r key) t s) := by
  have both {T : Registry → String → Prop} (hT : s.Closed T) (hkey : T r key) (h : s.Agree T t) :
      Resolver.GetsAlike closures r key T s t ∧ Resolver.GetsAlike closures r key T t s :=
    ⟨Resolver.getsAlike hclosures hs.acyclic ht.acyclic hT hkey h,
      Resolver.getsAlike hclosures ht.acyclic hs.acyclic (h.closed hT) hkey h.symm⟩
  exact ⟨both (s.chain_closed r) .refl, fun hb => both (Store.above_closed hb) (.inr ⟨rfl, rfl⟩)⟩

/-! ### A child that binds a parameter of its parent -/

namespace Overriding

open Resolver

def base : Registry := ⟨0, "base"⟩

def app : Registry := ⟨1, "app"⟩

/-- Every closure gives its first argument. -/
def closures : Closures Unit Unit where
  call _ a := .done (a.value 0)
  construct _ _ := .done (.ok .unit)

theorem detached_closures : closures.Detached where
  call _ _ := trivial
  construct _ _ := trivial

def server : Function Unit := ⟨2, "(port) => port", ⟨[⟨"port", none⟩]⟩, ()⟩

def store : Store Unit Unit :=
  (((Store.empty ()).bind base "port" (.constant ⟨3, .int 80⟩)).bind base "server" (.provider server false)).addParent
    app base

/-- The child binds the parameter of its parent's provider to another value. -/
def overridden : Store Unit Unit :=
  store.bind app "port" (.constant ⟨4, .int 8080⟩)

theorem reachable_store : store.Reachable := by
  refine ⟨(), .tail (.tail (.single (.bound _ base "port" _)) (.bound _ base "server" _)) (.extended ?_)⟩
  decide

theorem reachable_overridden : overridden.Reachable := by
  obtain ⟨memory, h⟩ := reachable_store
  exact ⟨memory, h.tail (.bound _ app "port" _)⟩

theorem unbound : store.binding? app "server" = none := by
  simp only [store, Store.binding?_addParent, Store.binding?_bind]
  rfl

theorem agree : store.Agree (store.Above app "server") overridden := by
  constructor
  case bindings =>
    rintro p k hk
    have hne : ¬ (p = app ∧ k = "port") := by
      rintro ⟨rfl, rfl⟩
      rcases hk with hp | ⟨-, hk⟩
      · exact reachable_store.acyclic app hp
      · simp at hk
    rw [overridden, Store.binding?_bind, if_neg hne]
  case parents => exact fun _ _ => Store.parents_bind ..
  case fresh => rfl
  case memory => rfl

/-- Before the child binds anything, it gets the value of its parent's parameter. -/
theorem get_server : ∃ ms, Ends closures (·.perform (.get app "server")) store (.ok ⟨3, .int 80⟩) store ms := by
  have hserver : store.binding? base "server" = some (.provider server false) := by
    simp only [store, Store.binding?_addParent, Store.binding?_bind]
    rfl
  have hport : store.binding? base "port" = some (.constant ⟨3, .int 80⟩) := by
    simp only [store, Store.binding?_addParent, Store.binding?_bind]
    rfl
  have hall : Resolves closures (.all base ["port"]) store (.ok [⟨3, .int 80⟩]) store _ :=
    .cons (x := .ok []) (.key (.bound hport (.value rfl base "port" store))) (.nil base store)
  have hcall : Resolves closures (.meet base (.run none (.function server))) store (.ok ⟨3, .int 80⟩) store _ :=
    .run (x := .ok ⟨3, .int 80⟩) hall ⟨1, rfl⟩
  have hparents : Resolves closures (.parents "server" [base]) store (some (.ok ⟨3, .int 80⟩)) store _ :=
    .found (.bound hserver (.provided hcall))
  have hget : Resolves closures (.meet app (.key "server")) store (.ok ⟨3, .int 80⟩) store _ :=
    .key (.inherited unbound hparents)
  exact ⟨_, (ends_perform_iff_of_demand rfl).2 ⟨_, store, _, _, hget, rfl, rfl⟩⟩

/-- It gets the same value though it binds the key of the parameter to another one. -/
theorem get_local_overridden :
    closures.Detached ∧ store.Reachable ∧ overridden.Reachable ∧ store.binding? app "server" = none ∧
      store.Agree (store.Above app "server") overridden ∧
      ∃ t ms, Ends closures (·.perform (.get app "server")) overridden (.ok ⟨3, .int 80⟩) t ms := by
  obtain ⟨ms, hget⟩ := get_server
  have hmain := get_local detached_closures reachable_store reachable_overridden app "server"
  obtain ⟨t, hget', -⟩ := (hmain.2 unbound agree).1 _ _ _ hget
  exact ⟨detached_closures, reachable_store, reachable_overridden, unbound, agree, t, ms, hget'⟩

end Overriding

end Injection
