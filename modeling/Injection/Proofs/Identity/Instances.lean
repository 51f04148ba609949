import Injection.Proofs.Identity.Construction
import Injection.Proofs.Resolver.ProvidedOnce

/-!
# Which instances are the same

A constructed instance is none of those that existed before, wherever they are held: closures make up no instances, so
all that is held is older than the next identity, which the new instance gets (`Program.older_of_constructor`).  A
binding that holds an instance keeps it until its key is bound or unbound, since only a provider is ever replaced by
its value (`Program.binding?_kept`), so whatever is looked up there is that instance.
-/

namespace Injection

open Run Resolver Holdings

section

variable {γ σ α : Type} {closures : Closures γ σ} {H : Holdings γ σ} {p : Program γ σ α} {K : Set (Value γ)}
  {s s' s₁ s₂ s₃ s₄ : Store γ σ} {ms mid pre pre' : Trace γ}

/-! ### What is held until then -/

/-- What is held at some moment of the run of a program until its trace is this: what it is given, what is there in the
beginning, what the trace tells of, and what any activity is begun with or ends with until then. -/
inductive Program.HeldUntil (closures : Closures γ σ) (H : Holdings γ σ) (p : Program γ σ α) (K : Set (Value γ))
    (s : Store γ σ) (ms : Trace γ) : Value γ → Prop
  | given {v : Value γ} (mem : v ∈ K) : HeldUntil closures H p K s ms v
  | initially {v : Value γ} (mem : v ∈ H.store s) : HeldUntil closures H p K s ms v
  | told {v : Value γ} (mem : v ∈ H.trace ms) : HeldUntil closures H p K s ms v
  | begun {x : Activity γ σ} {pre : Trace γ} {s₁ : Store γ σ} {v : Value γ} (during : p.During closures s pre x s₁)
    (isPrefix : pre <+: ms) (mem : v ∈ H.store s₁ ∪ H.activity x) : HeldUntil closures H p K s ms v
  | ended {x : Activity γ σ} {pre ms' : Trace γ} {s₁ s₂ : Store γ σ} {a : x.Answer} {v : Value γ}
    (during : p.During closures s pre x s₁) (ends : x.Ends closures s₁ a s₂ ms') (isPrefix : pre ++ ms' <+: ms)
    (mem : v ∈ H.store s₂ ∪ H.outcome x a) : HeldUntil closures H p K s ms v

theorem Activity.PartOf.exists_least {x : Activity γ σ} (h : x.PartOf closures s pre s' ms) :
    ∃ mid, Effect.least s s' mid ∧ ms = pre ++ mid := by
  obtain ⟨a, s₁, ms₁, post, ha, hpost, rfl⟩ := h
  exact ⟨ms₁ ++ post, Effect.least_law.trans ha.least hpost, by simp⟩

theorem Activity.PartOf.fresh_le {x : Activity γ σ} (h : x.PartOf closures s pre s' ms) : s.fresh ≤ s'.fresh := by
  obtain ⟨mid, h, -⟩ := h.exists_least
  exact Effect.fresh_le_of_least h

section Constructor

variable {c : Class γ} {a : Arguments γ} {n : Nat} {d : Data γ (Value γ)} {v : Value γ} {x : Activity γ σ}
  (hc : p.During closures s pre (.run (.constructible c) a) s₁)
  (hrun : (closures.construct c.body a).runWithin closures n s₁ = some (.ok d, s₂, ms))
  (hends : (Activity.run (.constructible c) a).Ends closures s₁ (.ok v) s₃
    (.called (.constructible c) a :: (ms ++ [.returned (.constructible c) (.ok v)])))
  (hx : p.During closures s pre' x s₄)

include hc hrun hends hx

/-- What begins before the program of a constructor has ended begins with no more identities given out. -/
private theorem fresh_le_of_begun (hpre : pre' <+: pre ++ .called (.constructible c) a :: ms) :
    s₄.fresh ≤ s₂.fresh := by
  have hprogram := Effect.fresh_le_of_least (Program.least hrun)
  rcases hc.order hx with ⟨ms', h, rfl⟩ | ⟨ms', h, rfl⟩ | h | h
  · rcases h.partOf_constructor hrun with ⟨-, -, rfl⟩ | h
    · exact hprogram
    · exact h.fresh_le
  · exact (Effect.fresh_le_of_least h.least).trans hprogram
  · obtain ⟨post, -, rfl⟩ := h.of_ends hends
    have hlength := hpre.length_le
    simp only [List.length_append, List.length_cons] at hlength
    omega
  · exact h.fresh_le.trans hprogram

/-- What ends before the program of a constructor has ended ends with no more identities given out. -/
private theorem fresh_le_of_ended {b : x.Answer} {s₅ : Store γ σ} {ms' : Trace γ} (hb : x.Ends closures s₄ b s₅ ms')
    (hpre : pre' ++ ms' <+: pre ++ .called (.constructible c) a :: ms) : s₅.fresh ≤ s₂.fresh := by
  have hprogram := Effect.fresh_le_of_least (Program.least hrun)
  have hlength := hpre.length_le
  simp only [List.length_append, List.length_cons] at hlength
  rcases hc.order hx with ⟨ms₁, h, rfl⟩ | ⟨ms₁, h, rfl⟩ | h | h
  · rcases h.partOf_constructor hrun with ⟨-, rfl, rfl⟩ | h
    · obtain ⟨-, -, rfl⟩ := hends.unique hb
      simp at hlength
      omega
    · obtain ⟨post, hpost, -⟩ := h.of_ends hb
      exact Effect.fresh_le_of_least hpost
  · obtain ⟨post, -, hms⟩ := (h.partOf (hb.partOf [])).of_ends hends
    have hms := congrArg List.length hms
    simp at hlength hms
    omega
  · obtain ⟨post, -, rfl⟩ := h.of_ends hends
    simp at hlength
    omega
  · obtain ⟨post, hpost, -⟩ := h.of_ends hb
    exact (Effect.fresh_le_of_least hpost).trans hprogram

end Constructor

/-- All that is held until the program of a constructor has ended is older than the instance that it makes. -/
theorem Program.older_of_constructor (hclosures : closures.Honest H) {gives : α → Set (Value γ)} (hp : p.Uses H gives K)
    (hs : H.Older s.fresh (H.store s)) (hK : H.Older s.fresh K) {c : Class γ} {a : Arguments γ} {v : Value γ}
    (hc : p.During closures s pre (.run (.constructible c) a) s₁)
    (h : (Activity.run (.constructible c) a).Ends closures s₁ (.ok v) s' ms) :
    H.Older v.id {w | p.HeldUntil closures H K s (pre ++ ms.dropLast) w} := by
  obtain ⟨n, d, s₂, ms₂, hrun, rfl, rfl, rfl⟩ := h.of_constructor
  have hdrop : (.called (.constructible c) a :: (ms₂ ++ [.returned (.constructible c) (.ok ⟨s₂.fresh, d⟩)]) :
      Trace γ).dropLast = .called (.constructible c) a :: ms₂ := by
    rw [← List.cons_append, List.dropLast_concat]
  have hbegin := hc.aged hclosures hp hs hK
  have hprogram := (hclosures.construct c.body a).ages (level_ages hclosures n).perform hrun hbegin.store hbegin.out
  have hle : s.fresh ≤ s₂.fresh := hbegin.fresh.trans hprogram.fresh
  rw [hdrop]
  rintro u ⟨w, hw, hpath⟩
  cases hw with
  | given mem => exact (hK.le hle) u ⟨w, mem, hpath⟩
  | initially mem => exact (hs.le hle) u ⟨w, mem, hpath⟩
  | told mem =>
    have hcalled : H.Older s₂.fresh (H.trace [.called (.constructible c) a]) := by
      rw [trace_singleton]
      exact hbegin.out.le hprogram.fresh
    have htrace := (hbegin.trace.le hprogram.fresh).union (hcalled.union hprogram.trace)
    rw [← trace_append, List.singleton_append, ← trace_append] at htrace
    exact htrace u ⟨w, mem, hpath⟩
  | begun during isPrefix mem =>
    have hx := during.aged hclosures hp hs hK
    exact ((hx.store.union hx.out).le (fresh_le_of_begun hc hrun h during isPrefix)) u ⟨w, mem, hpath⟩
  | ended during ends isPrefix mem =>
    have hx := during.aged hclosures hp hs hK
    have hend := ends.aged hclosures hx.store hx.out
    exact ((hend.store.union hend.out).le (fresh_le_of_ended hc hrun h during ends isPrefix)) u ⟨w, mem, hpath⟩

/-! ### Bindings that hold an instance -/

section Kept

variable {r : Registry} {key : String} {b : Binding γ} {v : Value γ}

/-- The effect of keeping the binding, unless its key is bound or unbound. -/
private def retains (r : Registry) (key : String) (b : Binding γ) : Effect γ σ := fun s s' ms =>
  s.binding? r key = some b → ms.NeverRebinds r key → s'.binding? r key = some b

private theorem retains_law (r : Registry) (key : String) (b : Binding γ) :
    (retains r key b : Effect γ σ).Law where
  refl _ hb _ := hb
  trans h h' hb hms := h' (h hb (Trace.neverRebinds_append.1 hms).1) (Trace.neverRebinds_append.1 hms).2
  plain _ _ _ hb _ := hb
  skip _ hb _ := hb
  remember _ _ hb _ := hb
  bind s q k b' hb hms := by
    rw [Store.binding?_bind, if_neg]
    · exact hb
    · rintro ⟨rfl, rfl⟩
      exact hms.bound b' (List.mem_singleton.2 rfl)
  unbind s q k hb hms := by
    rw [Store.binding?_unbind, if_neg]
    · exact hb
    · rintro ⟨rfl, rfl⟩
      exact hms.unbound (List.mem_singleton.2 rfl)
  extend _ hb _ := by rwa [Store.binding?_addParent]

private theorem retains_searchLaw (hv : b.value? = some v) (q : Registry) (k : String) :
    (retains r key b : Effect γ σ).SearchLaw q k where
  searching _ hb _ := hb
  searched _ _ hb _ := hb
  provided _ _ _ hb _ := hb
  memoized {s f g cached} hg _ w hb _ := by
    rw [Store.binding?_bind, if_neg]
    · exact hb
    · rintro ⟨rfl, rfl⟩
      -- what is memoized there was bound to a provider
      cases hg.symm.trans hb
      cases hv

theorem Effect.binding?_of_least (h : Effect.least s s' ms) (hv : b.value? = some v) (hb : s.binding? r key = some b)
    (hms : ms.NeverRebinds r key) : s'.binding? r key = some b :=
  h (retains r key b) (retains_law r key b) (retains_searchLaw hv) hb hms

/-- Steps without a trace leave all bindings. -/
theorem Effect.binding?_of_least_nil (h : Effect.least s s' []) (r : Registry) (key : String) :
    s'.binding? r key = s.binding? r key :=
  h Effect.bindings Effect.bindings_law Effect.bindings_searchLaw r key

/-- A binding that holds an instance is still there at any later moment of a run, if its key has not been bound or
unbound since. -/
theorem Program.binding?_kept {x y : Activity γ σ} (hx : p.During closures s pre x s₁)
    (hb : s₁.binding? r key = some b) (hv : b.value? = some v) (hy : p.During closures s (pre ++ mid) y s₂)
    (hmid : mid.NeverRebinds r key) : s₂.binding? r key = some b := by
  rcases hx.order hy with ⟨ms, h, heq⟩ | ⟨ms, h, heq⟩ | h | h
  · cases List.append_cancel_left heq
    exact Effect.binding?_of_least h.least hv hb hmid
  · -- both begin with the same trace
    have hnil : mid ++ ms = [] := by simpa using heq
    obtain ⟨rfl, rfl⟩ := List.append_eq_nil_iff.1 hnil
    rw [← hb, Effect.binding?_of_least_nil h.least]
  · obtain ⟨ms, h, heq⟩ := h.exists_least
    cases List.append_cancel_left heq
    exact Effect.binding?_of_least h hv hb hmid
  · obtain ⟨ms, h, heq⟩ := h.exists_least
    have hnil : mid ++ ms = [] := by simpa using heq
    obtain ⟨rfl, rfl⟩ := List.append_eq_nil_iff.1 hnil
    rw [← hb, Effect.binding?_of_least_nil h]

end Kept

/-! ### What is obtained by lookups -/

/-- The activity looks the key up from the registry, in this store, after this trace, and this is what it obtains: a get
its answer, one for a type its value, and a function or constructor that is run in a registry the argument for a
parameter. -/
inductive Activity.Obtains (closures : Closures γ σ) :
    Activity γ σ → Store γ σ → Trace γ → Registry → String → Store γ σ → Resolved γ → Prop
  | get {r : Registry} {key : String} {s s' : Store γ σ} {a : Resolved γ} {ms : Trace γ}
    (ends : (Activity.request (.get r key)).Ends closures s a s' ms) :
    Obtains closures (.request (.get r key)) s [.began .get] r key s a
  | getAs {r : Registry} {key : String} {t : ValueType} {s s' : Store γ σ} {v : Value γ} {ms : Trace γ}
    (ends : (Activity.request (.getAs r key t)).Ends closures s (.ok v) s' ms) :
    Obtains closures (.request (.getAs r key t)) s [.began .getAs] r key s (.ok v)
  | argument {r : Registry} {receiver : Option (Value γ)} {c : Callee γ} {key : String} {keys keys' : List String}
    {vs vs' : List (Value γ)} {v : Value γ} {s s₁ s' : Store γ σ} {ms ms' : Trace γ}
    (split : c.keys = keys ++ key :: keys') (before : Resolves closures (.all r keys) s (.ok vs) s₁ ms)
    (all : Resolves closures (.all r c.keys) s (.ok (vs ++ v :: vs')) s' ms') :
    Obtains closures (.goal (.meet r (.run receiver c))) s (.entered (c.span r) :: ms) r key s₁ (.ok v)

namespace Resolver

theorem Resolves.of_all_cons {r : Registry} {key : String} {keys : List String} {ws : List (Value γ)}
    (h : Resolves closures (.all r (key :: keys)) s (.ok ws) s' ms) :
    ∃ v vs s₁ ms₁ ms₂, ws = v :: vs ∧ Resolves closures (.meet r (.key key)) s (.ok v) s₁ ms₁ ∧
      Resolves closures (.all r keys) s₁ (.ok vs) s' ms₂ := by
  generalize ha : (Except.ok ws : Except ResolveError (List (Value γ))) = a at h
  cases h with
  | @cons _ _ _ _ s₁ _ v x ms₁ ms₂ first rest =>
    cases x with
    | error e => cases ha
    | ok vs =>
      cases ha
      exact ⟨v, vs, s₁, ms₁, ms₂, rfl, first, rest⟩
  | stopped => cases ha

/-- Each parameter is looked up in the store that the ones before it have left. -/
theorem Resolves.lookup_of_all {r : Registry} {key : String} {keys keys' : List String} {vs vs' : List (Value γ)}
    {v : Value γ} (before : Resolves closures (.all r keys) s (.ok vs) s₁ ms)
    (all : Resolves closures (.all r (keys ++ key :: keys')) s (.ok (vs ++ v :: vs')) s' ms') :
    (Activity.goal (.all r (keys ++ key :: keys'))).During closures s ms (.goal (.meet r (.key key))) s₁ ∧
      ∃ s₂ ms₂, Resolves closures (.meet r (.key key)) s₁ (.ok v) s₂ ms₂ := by
  induction keys generalizing s vs ms ms' with
  | nil =>
    cases before
    obtain ⟨w, ws, s₂, ms₂, -, heq, first, -⟩ := all.of_all_cons
    cases heq
    exact ⟨.inside (.parameter r key keys' _) (.self _ _), s₂, ms₂, first⟩
  | cons k keys ih =>
    generalize ha : (Except.ok vs : Except ResolveError (List (Value γ))) = a at before
    cases before with
    | @cons _ _ _ _ s₂ _ w x ms₂ ms₃ first rest =>
      cases x with
      | error e => cases ha
      | ok ws =>
        cases ha
        obtain ⟨w', ws', s₃, ms₄, ms₅, heq, first', rest'⟩ := all.of_all_cons
        obtain ⟨-, rfl, -⟩ := first.unique first'
        cases heq
        obtain ⟨hduring, hlookup⟩ := ih rest rest'
        exact ⟨.inside (.parameters first _) hduring, hlookup⟩
    | stopped => cases ha

end Resolver

/-- What an activity obtains is what a lookup gives that goes on during it. -/
theorem Activity.Obtains.lookup {x : Activity γ σ} {r : Registry} {key : String} {a : Resolved γ}
    (h : x.Obtains closures s pre r key s₁ a) :
    x.During closures s pre (.goal (.meet r (.key key))) s₁ ∧
      ∃ s' ms, (Activity.goal (.meet r (.key key))).Ends closures s₁ a s' ms := by
  cases h with
  | get ends =>
    obtain ⟨y, s₂, ms₁, ms₂, hy, hend, -⟩ := (ends_perform_iff_of_demand rfl).1 ends
    cases (conclude_get r key y s₂).symm.trans hend
    exact ⟨.inside (.demand rfl _) (.self _ _), _, ms₁, ends_goal_iff.2 hy⟩
  | @getAs _ key t _ _ v _ ends =>
    obtain ⟨y, s₂, ms₁, ms₂, hy, hend, -⟩ := (ends_perform_iff_of_demand rfl).1 ends
    have hv : checked key t y = .ok v :=
      congrArg Prod.fst (Option.some.inj ((conclude_getAs r key t y s₂).symm.trans hend))
    cases checked_eq_ok hv
    exact ⟨.inside (.demand rfl _) (.self _ _), s₂, ms₁, ends_goal_iff.2 hy⟩
  | argument split before all =>
    rw [split] at all
    obtain ⟨hduring, s₂, ms₂, hlookup⟩ := before.lookup_of_all all
    rw [← split] at hduring
    exact ⟨.inside (.inject r _ _ s) hduring, s₂, ms₂, ends_goal_iff.2 hlookup⟩

/-! ### The identities of a run -/

/-- Which instances of a run are the same and which are not. -/
structure Program.KeepsIdentities (closures : Closures γ σ) (H : Holdings γ σ) (p : Program γ σ α) (K : Set (Value γ))
    (s : Store γ σ) : Prop where
  /-- A construction comes to a run of a constructor, and the instance is different from all that is held anywhere until
  this run returns it, and from all instances inside of those. -/
  newest : ∀ {x pre s₁ v}, p.During closures s pre x s₁ → x.Builds closures s₁ v →
    ∃ c a ms s₂ ms' s₃, x.During closures s₁ ms (.run (.constructible c) a) s₂ ∧
      (Activity.run (.constructible c) a).Ends closures s₂ (.ok v) s₃ ms' ∧
      ∀ w ∈ H.within {u | p.HeldUntil closures H K s (pre ++ ms ++ ms'.dropLast) u}, w.same v = false
  /-- No two constructions give the same instance, among them lookups that stop at transients. -/
  distinct : ∀ {x y pre pre' s₁ s₂ v w}, p.During closures s pre x s₁ → x.Builds closures s₁ v →
    p.During closures s pre' y s₂ → y.Builds closures s₂ w → ¬ (pre = pre' ∧ x = y) → v.same w = false
  /-- If the binding of a key holds an instance, and the key is not bound or unbound until a lookup has come to where it
  stops, which is there, then what is obtained by the lookup is that instance. -/
  shared : ∀ {x y pre mid pre' ms s₁ s₂ s₃ s₄ r q key b b' v a}, p.During closures s pre x s₁ →
    s₁.binding? r key = some b → b.value? = some v → p.During closures s (pre ++ mid) y s₂ →
    y.Obtains closures s₂ pre' q key s₃ a → Stops closures key (.meet q (.key key)) s₃ ms r b' s₄ →
    Trace.NeverRebinds r key (mid ++ pre' ++ ms) → a = .ok v
  /-- What is obtained is what a lookup gives. -/
  obtained : ∀ {y pre pre' s₁ s₂ r key a}, p.During closures s pre y s₁ → y.Obtains closures s₁ pre' r key s₂ a →
    p.During closures s (pre ++ pre') (.goal (.meet r (.key key))) s₂ ∧
      ∃ s₃ ms, (Activity.goal (.meet r (.key key))).Ends closures s₂ a s₃ ms

theorem Program.During.inside {x y : Activity γ σ} (hx : p.During closures s pre x s₁)
    (hy : x.During closures s₁ ms y s₂) : p.During closures s (pre ++ ms) y s₂ := by
  obtain ⟨q, s₀, ms₀, ms₁, hq, hx, rfl⟩ := hx
  exact ⟨q, s₀, ms₀, ms₁ ++ ms, hq, hx.trans hy, List.append_assoc ..⟩

/-- A lookup that stops at a binding that has held an instance since gives that instance. -/
private theorem eq_ok_of_shared {x y : Activity γ σ} {r q : Registry} {key : String} {b b' : Binding γ} {v : Value γ}
    {a : Resolved γ} (hx : p.During closures s pre x s₁) (hb : s₁.binding? r key = some b) (hv : b.value? = some v)
    (hy : p.During closures s (pre ++ mid) y s₂) (ha : y.Obtains closures s₂ pre' q key s₃ a)
    (hstops : Stops closures key (.meet q (.key key)) s₃ ms r b' s₄)
    (hms : Trace.NeverRebinds r key (mid ++ pre' ++ ms)) : a = .ok v := by
  obtain ⟨hlookup, s₅, ms₅, hends⟩ := ha.lookup
  have hattempt : p.During closures s (pre ++ (mid ++ pre' ++ ms)) (.goal (.attempt r key b')) s₄ := by
    have h := (hy.inside hlookup).inside hstops.comesTo.during
    simpa only [List.append_assoc] using h
  have hkept := Program.binding?_kept hx hb hv hattempt hms
  cases hstops.binding?_eq.symm.trans hkept
  obtain ⟨y, s₆, ms₆, hresolves, heq⟩ := hstops.exists_resolves (.value hv r key s₄)
  cases (show y = .ok v from Option.some.inj heq)
  exact ((Activity.ends_goal_iff.1 hends).unique hresolves).1

/-- Whatever closures do, as long as they make up no instances: what a constructor makes is new, and what a registry
holds is shared. -/
theorem Program.keeps_identities (hclosures : closures.Honest H) {gives : α → Set (Value γ)} (hp : p.Uses H gives K)
    (hs : H.Older s.fresh (H.store s)) (hK : H.Older s.fresh K) : p.KeepsIdentities closures H K s where
  newest {x pre s₁ v} hx hv := by
    obtain ⟨z, ms, s₂, hz, c, a, s₃, ms', rfl, hends⟩ := hv.comesTo
    refine ⟨c, a, ms, s₂, ms', s₃, hz.during, hends, fun w hw => ?_⟩
    exact (Program.older_of_constructor hclosures hp hs hK (hx.inside hz.during) hends).same_eq_false hw
  distinct hx hv hy hw hne := by
    have h := Activity.Builds.id_ne hx hv hy hw hne
    simpa [Value.same] using h
  shared hx hb hv hy ha hstops hms := eq_ok_of_shared hx hb hv hy ha hstops hms
  obtained hy ha := ⟨hy.inside ha.lookup.1, ha.lookup.2⟩

end

/-! A transient is looked up twice. -/

namespace TwoLookups

def only : Registry := ⟨0, "only"⟩

def logger : Class Unit := ⟨"", ⟨[]⟩, .unit, ()⟩

def closures : Closures Unit Unit where
  call _ _ := .done (.error .missingReceiver)
  construct _ _ := .done (.ok .unit)

def store : Store Unit Unit :=
  { Store.empty () with fresh := 1 }.bind only "logger" (.transient logger)

def twice : Program Unit Unit Unit :=
  .ask (.get only "logger") fun _ => .ask (.get only "logger") fun _ => .done ()

/-- Nothing is captured and nothing is remembered. -/
def holdings : Holdings Unit Unit :=
  ⟨fun _ => ∅, fun _ => ∅⟩

theorem honest_closures : closures.Honest holdings where
  call _ _ := valueIn_error _ _
  construct _ _ := by
    rintro v ⟨d, heq, hv⟩
    cases heq
    exact hv.elim

theorem twice_uses : twice.Uses holdings (fun _ => ∅) ∅ :=
  ⟨Set.empty_subset _, fun _ => ⟨Set.empty_subset _, fun _ => Set.empty_subset _⟩⟩

theorem older_store : holdings.Older store.fresh (holdings.store store) := by
  refine (Older.empty _).subset ?_
  rintro v (⟨r, key, b, hb, hv⟩ | hv)
  · rw [store, Store.binding?_bind] at hb
    split at hb
    · cases hb
      exact hv
    · cases hb
  · exact hv

/-- Each lookup gives the next identity to a new instance. -/
theorem builds_lookup {s : Store Unit Unit} (hb : s.binding? only "logger" = some (.transient logger)) :
    ∃ ms, (Activity.goal (.meet only (.key "logger"))).Builds closures s ⟨s.fresh, .unit⟩ ∧
      (Activity.request (.get only "logger")).Ends closures s (.ok ⟨s.fresh, .unit⟩) s.skip (.began .get :: ms) := by
  have hrun : Resolver.Ends closures (runCallee closures · (.constructible logger) ⟨none, []⟩) s
      (.ok ⟨s.fresh, .unit⟩) s.skip _ := ⟨0, rfl⟩
  have hmeet : Resolves closures (.meet only (.run none (.constructible logger))) s _ s.skip _ :=
    .run (.nil only s) hrun
  have hlookup := Resolves.key (.bound hb (.transient hmeet))
  have hget := (ends_perform_iff_of_demand (q := .get only "logger") rfl).2
    ⟨_, _, _, _, hlookup, conclude_get only "logger" _ _, rfl⟩
  exact ⟨_, .transient (.lookup (.bound hb)) (Activity.ends_goal_iff.2 hlookup), hget⟩

theorem keeps_identities_twice :
    ∃ pre s₁ v pre' s₂ w, twice.During closures store pre (.goal (.meet only (.key "logger"))) s₁ ∧
      (Activity.goal (.meet only (.key "logger"))).Builds closures s₁ v ∧
      twice.During closures store pre' (.goal (.meet only (.key "logger"))) s₂ ∧
      (Activity.goal (.meet only (.key "logger"))).Builds closures s₂ w ∧ pre ≠ pre' ∧ v.same w = false := by
  have hb : store.binding? only "logger" = some (.transient logger) := by
    rw [store, Store.binding?_bind, if_pos ⟨rfl, rfl⟩]
  obtain ⟨ms, hv, hget⟩ := builds_lookup hb
  obtain ⟨ms', hw, -⟩ := builds_lookup (s := store.skip) hb
  have hlookup (s : Store Unit Unit) : (Activity.request (.get only "logger")).During closures s [.began .get]
      (.goal (.meet only (.key "logger"))) s := .inside (.demand rfl s) (.self _ s)
  have hfirst : twice.During closures store [.began .get] (.goal (.meet only (.key "logger"))) store :=
    ⟨_, store, [], _, .first _ _ store, hlookup store, rfl⟩
  have hsecond : twice.During closures store _ (.goal (.meet only (.key "logger"))) store.skip :=
    ⟨_, store.skip, _, _, .later hget (.first _ _ store.skip), hlookup store.skip, rfl⟩
  have hne : ([.began .get] : Trace Unit) ≠ (.began .get :: ms) ++ [] ++ [.began .get] := by simp
  have hkeeps := Program.keeps_identities honest_closures twice_uses older_store (.empty _)
  exact ⟨_, _, _, _, _, _, hfirst, hv, hsecond, hw, hne, hkeeps.distinct hfirst hv hsecond hw fun h => hne h.1⟩

end TwoLookups

end Injection
