import Injection.Proofs.Resolver.Detached

/-!
# What a lookup can reach

Where nothing but memoization happens, the store settles: providers become constants, and all else about registries
stays (`Store.Settles`).  What a lookup can reach is therefore known beforehand.  A set of keys in registries that is
closed under injection and inheritance holds all bindings that a lookup within it can change
(`Resolves.unchanged_outside`).  Keys of a registry that inject each other in a circle give no value, and they stay
bound as they are (`Resolves.circular`).

Both together show that a provider is still bound to its key when it has given its value: `Resolves.keeps_callee`.
-/

namespace Injection

open Run Relation

variable {γ σ : Type}

/-! ### Settling -/

namespace Store

variable {s s' s'' : Store γ σ} {r p : Registry} {key : String}

theorem contents_of_registries (h : s'.registries = s.registries) (r : Registry) : s'.contents r = s.contents r := by
  unfold contents
  rw [h]

theorem parents_of_registries (h : s'.registries = s.registries) (r : Registry) : s'.parents r = s.parents r := by
  unfold parents
  rw [contents_of_registries h]

theorem binding?_of_registries (h : s'.registries = s.registries) (r : Registry) (key : String) :
    s'.binding? r key = s.binding? r key := by
  unfold binding?
  rw [contents_of_registries h]

/-- Parents are the same, and so are bindings, except that providers may have become constants. -/
structure Settles (s s' : Store γ σ) : Prop where
  parents : ∀ r, s'.parents r = s.parents r
  bindings : ∀ r key, s'.binding? r key = s.binding? r key ∨
    ∃ f cached v, s.binding? r key = some (.provider f cached) ∧ s'.binding? r key = some (.constant v)

namespace Settles

theorem refl (s : Store γ σ) : s.Settles s :=
  ⟨fun _ => rfl, fun _ _ => .inl rfl⟩

theorem of_registries (h : s'.registries = s.registries) : s.Settles s' :=
  ⟨parents_of_registries h, fun r key => .inl (binding?_of_registries h r key)⟩

theorem trans (h : s.Settles s') (h' : s'.Settles s'') : s.Settles s'' := by
  constructor
  case parents => exact fun r => (h'.parents r).trans (h.parents r)
  case bindings =>
    intro r key
    rcases h'.bindings r key with h' | ⟨f, cached, v, hf, hv⟩
    · rw [h']
      exact h.bindings r key
    · rcases h.bindings r key with h | ⟨g, _, w, hg, hw⟩
      · exact .inr ⟨f, cached, v, h ▸ hf, hv⟩
      · rw [hw] at hf
        cases hf

theorem unbound_iff (h : s.Settles s') : s'.binding? r key = none ↔ s.binding? r key = none := by
  rcases h.bindings r key with h | ⟨f, cached, v, hf, hv⟩
  · rw [h]
  · simp [hf, hv]

/-- What is left to run is bound already. -/
theorem of_callee (h : s.Settles s') {b : Binding γ} {c : Callee γ} (hb : s'.binding? r key = some b)
    (hc : b.callee? = some c) : s.binding? r key = some b := by
  rcases h.bindings r key with h | ⟨f, cached, v, hf, hv⟩
  · rw [← h, hb]
  · rw [hv] at hb
    cases hb
    cases hc

theorem isParent_eq (h : s.Settles s') : s'.IsParent = s.IsParent := by
  funext r p
  unfold IsParent
  rw [h.parents]

theorem acyclic (h : s.Settles s') (hs : s.Acyclic) : s'.Acyclic :=
  hs.congr h.parents

theorem ancestors_eq (h : s.Settles s') (hs : s.Acyclic) (r : Registry) : s'.ancestors r = s.ancestors r :=
  hs.ancestors_congr (h.acyclic hs) h.parents r

theorem sameShape (h : s.Settles s') : s.SameShape s' := by
  constructor
  case parents => exact h.parents
  case bound =>
    intro r key
    rcases h.bindings r key with h | ⟨f, cached, v, hf, hv⟩
    · rw [h]
    · rw [hf, hv]
      rfl

/-- A provider may be replaced by a constant. -/
theorem bind {f : Function γ} {cached : Bool} (hb : s.binding? r key = some (.provider f cached)) (v : Value γ) :
    s.Settles (s.bind r key (.constant v)) := by
  constructor
  case parents => exact fun q => parents_bind ..
  case bindings =>
    intro q k
    rw [binding?_bind]
    by_cases hq : q = r ∧ k = key
    · obtain ⟨rfl, rfl⟩ := hq
      rw [if_pos ⟨rfl, rfl⟩]
      exact .inr ⟨f, cached, v, hb, rfl⟩
    · rw [if_neg hq]
      exact .inl rfl

end Settles

end Store

/-- Where nothing but memoization happens, the store settles. -/
def Effect.settles (s s' : Store γ σ) (ms : Trace γ) : Prop :=
  ms.OnlyMemoizes → s.Settles s'

theorem Effect.settles_law : Effect.Law (Effect.settles (γ := γ) (σ := σ)) where
  refl s _ := .refl s
  trans h h' hms := by
    rw [Trace.onlyMemoizes_append] at hms
    exact (h hms.1).trans (h' hms.2)
  plain s _ _ _ := .refl s
  skip _ _ := .of_registries rfl
  remember _ _ _ := .of_registries rfl
  bind s r key b hms := by simpa using hms _ (List.mem_singleton.2 rfl)
  unbind s r key hms := by simpa using hms _ (List.mem_singleton.2 rfl)
  extend _ hms := by simpa using hms _ (List.mem_singleton.2 rfl)

theorem Effect.settles_searchLaw (r : Registry) (key : String) :
    Effect.SearchLaw (Effect.settles (γ := γ) (σ := σ)) r key where
  searching s _ := .refl s
  searched s _ _ := .refl s
  provided s _ _ _ := .refl s
  memoized hb _ v _ := .bind hb v

namespace Resolver

theorem Resolves.settles {closures : Closures γ σ} {g : Goal γ} {s s' : Store γ σ} {a : g.Answer} {ms : Trace γ}
    (h : Resolves closures g s a s' ms) (hms : ms.OnlyMemoizes) : s.Settles s' :=
  h.effect Effect.settles_law Effect.settles_searchLaw hms

theorem Resolves.settles_of_detached {closures : Closures γ σ} (hclosures : closures.Detached) {g : Goal γ}
    {s s' : Store γ σ} {a : g.Answer} {ms : Trace γ} (h : Resolves closures g s a s' ms) : s.Settles s' :=
  h.settles (h.onlyMemoizes hclosures)

end Resolver

/-! ### Closed sets -/

/-- The set of keys in registries is closed under injection and inheritance. -/
structure Store.Closed (s : Store γ σ) (T : Registry → String → Prop) : Prop where
  injected : ∀ {r key b c j}, T r key → s.binding? r key = some b → b.callee? = some c → j ∈ c.keys → T r j
  inherited : ∀ {r key p}, T r key → s.binding? r key = none → s.IsParent r p → T p key

theorem Store.Closed.settles {s s' : Store γ σ} {T : Registry → String → Prop} (hT : s.Closed T) (h : s.Settles s') :
    s'.Closed T where
  injected ht hb hc hj := hT.injected ht (h.of_callee hb hc) hc hj
  inherited ht hb hp := hT.inherited ht (h.unbound_iff.1 hb) (h.isParent_eq ▸ hp)

/-- All keys, in the registry and in those it inherits from. -/
def Store.Chain (s : Store γ σ) (r : Registry) (p : Registry) (_ : String) : Prop :=
  ReflTransGen s.IsParent r p

theorem Store.chain_closed (s : Store γ σ) (r : Registry) : s.Closed (s.Chain r) where
  injected hp _ _ _ := hp
  inherited hp _ hq := hp.tail hq

namespace Goal

/-- All that the goal starts with is in the set. -/
def Within (T : Registry → String → Prop) : Goal γ → Prop
  | .meet r (.key key) => T r key
  | .meet r (.run _ c) => ∀ j ∈ c.keys, T r j
  | .meet _ (.other _) => True
  | .search r key => T r key
  | .parents key ps => ∀ p ∈ ps, T p key
  | .attempt r key _ => T r key
  | .all r keys => ∀ j ∈ keys, T r j

/-- An attempt is made at the binding that the store has. -/
def Posed (s : Store γ σ) : Goal γ → Prop
  | .attempt r key b => s.binding? r key = some b
  | _ => True

end Goal

namespace Resolver

variable {closures : Closures γ σ} {s s' : Store γ σ} {ms : Trace γ} {T : Registry → String → Prop} {r : Registry}
  {key : String}

/-- Running a detached closure leaves all bindings. -/
theorem binding?_of_runCallee (hclosures : closures.Detached) {c : Callee γ} {args : Arguments γ}
    {x : Except InstantiateError (Value γ)} (h : Ends closures (runCallee closures · c args) s x s' ms) :
    s'.binding? r key = s.binding? r key := by
  obtain ⟨n, h⟩ := h
  exact Store.binding?_of_registries ((runCallee_detached hclosures n c args).registries h) r key

theorem binding?_of_memoize {q : Registry} {k : String} {f : Function γ} {v : Value γ}
    (h : memoize q k f v s = some ((), s', ms)) (hne : ¬ (r = q ∧ key = k)) : s'.binding? r key = s.binding? r key := by
  rcases memoize_eq_some h with ⟨g, cached, -, -, rfl, -⟩ | ⟨rfl, -⟩
  · rw [Store.binding?_bind, if_neg hne]
  · rfl

/-- A lookup within a closed set changes bindings in the set only. -/
theorem Resolves.unchanged_outside (hclosures : closures.Detached) {g : Goal γ} {a : g.Answer}
    (h : Resolves closures g s a s' ms) (hg : g.Posed s) (hT : s.Closed T) (hw : g.Within T) (hr : ¬ T r key) :
    s'.binding? r key = s.binding? r key := by
  induction h with
  | key _ ih => exact ih trivial hT hw
  | other => rfl
  | unresolved _ ih => exact ih trivial hT hw
  | run _ hx ih => exact (binding?_of_runCallee hclosures hx).trans (ih trivial hT hw)
  | bound hb _ ih => exact ih hb hT hw
  | inherited hb _ ih => exact ih trivial hT fun p hp => hT.inherited hw hb (List.mem_reverse.1 hp)
  | exhausted => rfl
  | found _ ih => exact ih trivial hT (hw _ List.mem_cons_self)
  | failed hp _ ih ihrest | absent hp _ ih ihrest =>
    -- what comes second is pursued in a store that has settled, where the set is closed still
    have hT' := hT.settles (hp.settles_of_detached hclosures)
    exact (ihrest trivial hT' fun q hq => hw q (List.mem_cons_of_mem _ hq)).trans
      (ih trivial hT (hw _ List.mem_cons_self))
  | value => rfl
  | transient _ ih | unprovided _ ih | provided _ ih => exact ih trivial hT fun j hj => hT.injected hw hg rfl hj
  | @kept q k _ _ _ _ _ _ _ _ hm ih =>
    have hne : ¬ (r = q ∧ key = k) := by
      rintro ⟨rfl, rfl⟩
      exact hr hw
    exact (binding?_of_memoize hm hne).trans (ih trivial hT fun j hj => hT.injected hw hg rfl hj)
  | nil => rfl
  | cons hfirst _ ih ihrest =>
    have hT' := hT.settles (hfirst.settles_of_detached hclosures)
    exact (ihrest trivial hT' fun j hj => hw j (List.mem_cons_of_mem _ hj)).trans
      (ih trivial hT (hw _ List.mem_cons_self))
  | stopped _ ih => exact ih trivial hT (hw _ List.mem_cons_self)

end Resolver

/-! ### Circles -/

/-- What the registry binds to the key injects the other key. -/
def Store.Needs (s : Store γ σ) (r : Registry) (key j : String) : Prop :=
  ∃ b c, s.binding? r key = some b ∧ b.callee? = some c ∧ j ∈ c.keys

/-- The registry binds each key of the set to something that needs one of them. -/
def Store.Circular (s : Store γ σ) (r : Registry) (C : String → Prop) : Prop :=
  ∀ key, C key → ∃ j, s.Needs r key j ∧ C j

theorem Store.Circular.congr {s s' : Store γ σ} {r : Registry} {C : String → Prop} (hC : s.Circular r C)
    (h : ∀ key, C key → s'.binding? r key = s.binding? r key) : s'.Circular r C := by
  intro key hkey
  obtain ⟨j, ⟨b, c, hb, hc, hj⟩, hCj⟩ := hC key hkey
  exact ⟨j, ⟨b, c, (h key hkey).trans hb, hc, hj⟩, hCj⟩

namespace Goal

/-- The goal cannot be reached without a value for a key of the set in the registry. -/
def Hits (r : Registry) (C : String → Prop) : Goal γ → Prop
  | .meet q (.key key) => q = r ∧ C key
  | .meet q (.run _ c) => q = r ∧ ∃ j ∈ c.keys, C j
  | .meet _ (.other _) => False
  | .search q key => q = r ∧ C key
  | .parents _ _ => False
  | .attempt q key _ => q = r ∧ C key
  | .all q keys => q = r ∧ ∃ j ∈ keys, C j

/-- The answer is a value. -/
def Succeeds : (g : Goal γ) → g.Answer → Prop
  | .meet _ _, a => ∃ v, a = .ok v
  | .search _ _, x => ∃ v, x = some (.ok v)
  | .parents _ _, x => ∃ v, x = some (.ok v)
  | .attempt _ _ _, a => ∃ v, a = .ok v
  | .all _ _, x => ∃ vs, x = .ok vs

end Goal

namespace Resolver

variable {closures : Closures γ σ} {s s' : Store γ σ} {ms : Trace γ} {r : Registry} {C : String → Prop}

/-- An attempt at a key of a circle needs another of its keys. -/
private theorem hits_of_circular (hC : s.Circular r C) {q : Registry} {key : String} {b : Binding γ}
    (hb : s.binding? q key = some b) (h : (Goal.attempt q key b).Hits r C) :
    ∃ c, b.callee? = some c ∧ (Goal.meet q (.run none c)).Hits r C := by
  obtain ⟨rfl, hkey⟩ := h
  obtain ⟨j, ⟨b', c, hb', hc, hj⟩, hCj⟩ := hC key hkey
  rw [hb] at hb'
  cases hb'
  exact ⟨c, hc, rfl, j, hj, hCj⟩

/-- Keys that need each other in a circle give no value, and they stay bound as they are. -/
theorem Resolves.circular (hclosures : closures.Detached) {g : Goal γ} {a : g.Answer}
    (h : Resolves closures g s a s' ms) (hg : g.Posed s) (hC : s.Circular r C) :
    (∀ key, C key → s'.binding? r key = s.binding? r key) ∧ (g.Hits r C → ¬ g.Succeeds a) := by
  induction h with
  | @key q key s s' x ms _ ih =>
    obtain ⟨hsame, hfails⟩ := ih trivial hC
    refine ⟨hsame, fun hit ⟨v, hv⟩ => hfails hit ⟨v, ?_⟩⟩
    cases x with
    | none => cases hv
    | some a => exact congrArg some hv
  | other => exact ⟨fun _ _ => rfl, fun hit => hit.elim⟩
  | unresolved _ ih =>
    obtain ⟨hsame, -⟩ := ih trivial hC
    exact ⟨hsame, fun _ ⟨v, hv⟩ => nomatch hv⟩
  | run _ hx ih =>
    obtain ⟨hsame, hfails⟩ := ih trivial hC
    exact ⟨fun k hk => (binding?_of_runCallee hclosures hx).trans (hsame k hk),
      fun hit _ => hfails hit ⟨_, rfl⟩⟩
  | bound hb _ ih =>
    obtain ⟨hsame, hfails⟩ := ih hb hC
    exact ⟨hsame, fun hit ⟨v, hv⟩ => hfails hit ⟨v, Option.some.inj hv⟩⟩
  | inherited hb _ ih =>
    obtain ⟨hsame, -⟩ := ih trivial hC
    refine ⟨hsame, fun ⟨hq, hkey⟩ => ?_⟩
    obtain ⟨j, ⟨b, c, hb', -⟩, -⟩ := hC _ hkey
    rw [← hq, hb] at hb'
    cases hb'
  | exhausted => exact ⟨fun _ _ => rfl, fun hit => hit.elim⟩
  | found _ ih =>
    obtain ⟨hsame, -⟩ := ih trivial hC
    exact ⟨hsame, fun hit => hit.elim⟩
  | failed _ _ ih ihrest | absent _ _ ih ihrest =>
    obtain ⟨hsame, -⟩ := ih trivial hC
    obtain ⟨hsame', -⟩ := ihrest trivial (hC.congr hsame)
    exact ⟨fun k hk => (hsame' k hk).trans (hsame k hk), fun hit => hit.elim⟩
  | value hv =>
    refine ⟨fun _ _ => rfl, fun hit _ => ?_⟩
    obtain ⟨c, hc, -⟩ := hits_of_circular hC hg hit
    rw [Binding.callee?_eq_none_iff.2 ⟨_, hv⟩] at hc
    cases hc
  | transient _ ih =>
    obtain ⟨hsame, hfails⟩ := ih trivial hC
    refine ⟨hsame, fun hit hv => ?_⟩
    obtain ⟨c, hc, hit⟩ := hits_of_circular hC hg hit
    cases hc
    exact hfails hit hv
  | unprovided _ ih =>
    obtain ⟨hsame, -⟩ := ih trivial hC
    exact ⟨hsame, fun _ ⟨v, hv⟩ => nomatch hv⟩
  | provided _ ih =>
    obtain ⟨hsame, hfails⟩ := ih trivial hC
    refine ⟨hsame, fun hit hv => ?_⟩
    obtain ⟨c, hc, hit⟩ := hits_of_circular hC hg hit
    cases hc
    exact hfails hit hv
  | @kept q key f s s₁ s' v ms ms' _ hm ih =>
    obtain ⟨hsame, hfails⟩ := ih trivial hC
    -- the provider gave a value, so its key is not in the circle
    have hmiss : ¬ (Goal.attempt q key (.provider f true)).Hits r C := by
      intro hit
      obtain ⟨c, hc, hit⟩ := hits_of_circular hC hg hit
      cases hc
      exact hfails hit ⟨v, rfl⟩
    refine ⟨fun k hk => ?_, fun hit => absurd hit hmiss⟩
    exact (binding?_of_memoize hm fun ⟨hq, hkey⟩ => hmiss ⟨hq.symm, hkey ▸ hk⟩).trans (hsame k hk)
  | nil => exact ⟨fun _ _ => rfl, fun ⟨_, j, hj, _⟩ => nomatch hj⟩
  | @cons q key keys s s₁ s' v x ms ms' _ _ ih ihrest =>
    obtain ⟨hsame, hfails⟩ := ih trivial hC
    obtain ⟨hsame', hfails'⟩ := ihrest trivial (hC.congr hsame)
    refine ⟨fun k hk => (hsame' k hk).trans (hsame k hk), fun ⟨hq, j, hj, hCj⟩ ⟨vs, hvs⟩ => ?_⟩
    rcases List.mem_cons.1 hj with rfl | hj
    · exact hfails ⟨hq, hCj⟩ ⟨v, rfl⟩
    · cases x with
      | error e => cases hvs
      | ok ws => exact hfails' ⟨hq, j, hj, hCj⟩ ⟨ws, rfl⟩
  | stopped _ ih =>
    obtain ⟨hsame, -⟩ := ih trivial hC
    exact ⟨hsame, fun _ ⟨v, hv⟩ => nomatch hv⟩

/-- A callee that gives a value is still what its key is bound to: it does not need its own key, and what it needs
cannot reach the key in another way, for no registry inherits from itself. -/
theorem Resolves.keeps_callee (hclosures : closures.Detached) (hs : s.Acyclic) {key : String} {b : Binding γ}
    {c : Callee γ} {receiver : Option (Value γ)} {v : Value γ} (hb : s.binding? r key = some b)
    (hc : b.callee? = some c) (h : Resolves closures (.meet r (.run receiver c)) s (.ok v) s' ms) :
    s'.binding? r key = s.binding? r key := by
  by_cases hcircle : TransGen (s.Needs r) key key
  · have hC : s.Circular r fun k => TransGen (s.Needs r) k key := by
      intro k hk
      obtain ⟨j, hj, hjkey⟩ := TransGen.head'_iff.1 hk
      rcases reflTransGen_iff_eq_or_transGen.1 hjkey with rfl | hjkey
      · exact ⟨key, hj, hcircle⟩
      · exact ⟨j, hj, hjkey⟩
    obtain ⟨c', hc', hit⟩ := hits_of_circular hC hb ⟨rfl, hcircle⟩
    rw [hc] at hc'
    cases hc'
    exact absurd ⟨v, rfl⟩ ((h.circular hclosures trivial hC).2 hit)
  · refine h.unchanged_outside (T := fun p k => TransGen s.IsParent r p ∨ p = r ∧ TransGen (s.Needs r) key k)
      hclosures trivial ?closed ?within ?outside
    case closed =>
      constructor
      case injected =>
        rintro p k b' c' j (hp | ⟨rfl, hk⟩) hb' hc' hj
        · exact .inl hp
        · exact .inr ⟨rfl, hk.tail ⟨b', c', hb', hc', hj⟩⟩
      case inherited =>
        rintro p k q (hp | ⟨rfl, hk⟩) - hq
        · exact .inl (hp.tail hq)
        · exact .inl (.single hq)
    case within => exact fun j hj => .inr ⟨rfl, .single ⟨b, c, hb, hc, hj⟩⟩
    case outside =>
      rintro (hr | ⟨-, hkey⟩)
      · exact hs r hr
      · exact hcircle hkey

end Resolver

end Injection
