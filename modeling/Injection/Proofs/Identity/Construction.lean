import Injection.Proofs.Identity.Aging
import Injection.Proofs.Resolver.Nesting
import Injection.Proofs.Resolver.Stopping

/-!
# Constructions

An instance of a class is made by a run of its constructor, which gives out a new identity in the end.  Registries make
some when they instantiate a class, be it to bind the instance, and when a lookup stops at a transient binding; a class
can also be made to construct one without a registry (`Activity.Builds`).

In each case one run of the constructor makes the instance, and between the construction and that run there is neither
another request nor another lookup (`Activity.Builds.comesTo`).  So no two constructions share a run of a constructor,
and no two of them give the same instance (`Activity.Builds.id_ne`).
-/

namespace Injection

open Run Resolver

variable {γ σ α : Type} {closures : Closures γ σ} {s s' s₁ s₂ : Store γ σ} {ms ms' pre pre' : Trace γ}

/-! ### What an activity comes to by itself -/

namespace Activity

/-- Neither a request nor a lookup that somebody asked for. -/
def IsStep : Activity γ σ → Prop
  | .request _ | .goal (.meet _ (.key _)) => False
  | _ => True

/-- The activity comes to the other without another request or lookup in between. -/
inductive ComesTo (closures : Closures γ σ) :
    Activity γ σ → Store γ σ → Trace γ → Activity γ σ → Store γ σ → Prop
  | step {x y : Activity γ σ} {s s₁ : Store γ σ} {ms : Trace γ} (does : x.Does closures s ms y s₁) (isStep : y.IsStep) :
    ComesTo closures x s ms y s₁
  | steps {x y z : Activity γ σ} {s s₁ s₂ : Store γ σ} {ms ms' : Trace γ} (does : x.Does closures s ms y s₁)
    (isStep : y.IsStep) (comes : ComesTo closures y s₁ ms' z s₂) : ComesTo closures x s (ms ++ ms') z s₂

variable {x y z : Activity γ σ}

namespace ComesTo

theorem trans (h : x.ComesTo closures s pre y s₁) (h' : y.ComesTo closures s₁ pre' z s₂) :
    x.ComesTo closures s (pre ++ pre') z s₂ := by
  induction h with
  | step does isStep => exact .steps does isStep h'
  | steps does isStep _ ih =>
    rw [List.append_assoc]
    exact .steps does isStep (ih h')

theorem during (h : x.ComesTo closures s pre y s₁) : x.During closures s pre y s₁ := by
  induction h with
  | step does _ =>
    have h := During.inside does (.self _ _)
    rwa [List.append_nil] at h
  | steps does _ _ ih => exact .inside does ih

theorem least (h : x.ComesTo closures s pre y s₁) : Effect.least s s₁ pre :=
  h.during.least

/-- A request or lookup that goes on during the activity, if it is not the activity itself, goes on during what the
activity comes to, or has ended before that begins, or begins after that has ended. -/
theorem order (h : x.ComesTo closures s pre z s₁) (h' : x.During closures s pre' y s₂) (hy : ¬ y.IsStep) :
    (pre' = [] ∧ y = x) ∨ (∃ ms, z.During closures s₁ ms y s₂) ∨ y.PartOf closures s₂ pre' s₁ pre ∨
      z.PartOf closures s₁ pre s₂ pre' := by
  induction h generalizing pre' y s₂ with
  | step does _ =>
    cases h' with
    | self => exact .inl ⟨rfl, rfl⟩
    | inside does' during =>
      rcases does.order does' with ⟨rfl, rfl, rfl⟩ | h | h
      · exact .inr (.inl ⟨_, during⟩)
      · exact .inr (.inr (.inr (h.before during.least)))
      · exact .inr (.inr (.inl (during.partOf h)))
  | steps does isStep comes ih =>
    cases h' with
    | self => exact .inl ⟨rfl, rfl⟩
    | inside does' during =>
      rcases does.order does' with ⟨rfl, rfl, rfl⟩ | h | h
      · rcases ih during hy with ⟨-, rfl⟩ | h | h | h
        · exact absurd isStep hy
        · exact .inr (.inl h)
        · exact .inr (.inr (.inl (h.after _)))
        · exact .inr (.inr (.inr (h.after _)))
      · exact .inr (.inr (.inr ((comes.during.partOf h).before during.least)))
      · exact .inr (.inr (.inl ((during.partOf h).before comes.least)))

end ComesTo

end Activity

/-- A lookup comes to the attempt at the binding at which it stops. -/
theorem Resolver.Stops.comesTo {key : String} {g : Goal γ} {q : Registry} {b : Binding γ}
    (h : Stops closures key g s pre q b s₁) :
    (Activity.goal g).ComesTo closures s pre (.goal (.attempt q key b)) s₁ := by
  induction h with
  | lookup _ ih => exact .steps (.search _ _ _) trivial ih
  | bound bound => exact .step (.bound bound) trivial
  | inherited unbound _ ih => exact .steps (.inherited unbound) trivial ih
  | found _ _ ps ih => exact .steps (.parent key _ ps _) trivial ih
  | failed search _ ih => exact .steps (.failed search _) trivial ih
  | absent search _ ih => exact .steps (.absent search _) trivial ih

/-! ### Constructions -/

namespace Activity

/-- Constructions that give an instance: that of a class, directly or in a registry, that of the instance to be bound,
and lookups that stop at a transient. -/
inductive Builds (closures : Closures γ σ) : Activity γ σ → Store γ σ → Value γ → Prop
  | construct {c : Class γ} {a : Arguments γ} {s s' : Store γ σ} {v : Value γ} {ms : Trace γ}
    (ends : (Activity.request (.construct c a)).Ends closures s (.ok v) s' ms) :
    Builds closures (.request (.construct c a)) s v
  | instantiate {r : Registry} {c : Class γ} {s s' : Store γ σ} {v : Value γ} {ms : Trace γ}
    (ends : (Activity.request (.instantiate r c)).Ends closures s (.ok v) s' ms) :
    Builds closures (.request (.instantiate r c)) s v
  | singleton {r : Registry} {key : String} {c : Class γ} {s s' : Store γ σ} {v : Value γ} {ms : Trace γ}
    (ends : (Activity.request (.singleton r key c)).Ends closures s (.ok ()) s' ms)
    (bound : s'.binding? r key = some (.singleton v)) : Builds closures (.request (.singleton r key c)) s v
  | transient {r q : Registry} {key : String} {c : Class γ} {s s₁ s' : Store γ σ} {v : Value γ} {ms pre : Trace γ}
    (stops : Stops closures key (.meet r (.key key)) s pre q (.transient c) s₁)
    (ends : (Activity.goal (.meet r (.key key))).Ends closures s (.ok v) s' ms) :
    Builds closures (.goal (.meet r (.key key))) s v

variable {x y : Activity γ σ} {v w : Value γ}

theorem Builds.not_isStep (h : x.Builds closures s v) : ¬ x.IsStep := by
  cases h <;> exact id

/-- This run of a constructor gives the instance. -/
def Constructs (closures : Closures γ σ) (x : Activity γ σ) (s : Store γ σ) (v : Value γ) : Prop :=
  ∃ c a s' ms, x = .run (.constructible c) a ∧
    (Activity.run (.constructible c) a).Ends closures s (.ok v) s' ms

/-- Resolving a class comes to the run of its constructor. -/
private theorem comesTo_of_meet {r : Registry} {c : Class γ}
    (h : Resolves closures (.meet r (.run none (.constructible c))) s (.ok v) s' ms) :
    ∃ z pre s₁, (Activity.goal (.meet r (.run none (.constructible c)))).ComesTo closures s pre z s₁ ∧
      z.Constructs closures s₁ v := by
  generalize ha : (Except.ok v : Resolved γ) = a at h
  cases h with
  | unresolved => cases ha
  | run all run =>
    rename_i x _ _
    cases x with
    | error e => cases ha
    | ok w =>
      cases ha
      exact ⟨_, _, _, .step (.run all) trivial, c, _, _, _, rfl, run⟩

/-- A construction comes to the run of a constructor that makes the instance. -/
theorem Builds.comesTo (h : x.Builds closures s v) :
    ∃ z pre s₁, x.ComesTo closures s pre z s₁ ∧ z.Constructs closures s₁ v := by
  have of_demand {q : Request γ σ} {r : Registry} {c : Class γ}
      (hq : q.demand? = some (r, .run none (.constructible c)))
      {s : Store γ σ} {s' : Store γ σ} {ms : Trace γ}
      (h : Resolves closures (.meet r (.run none (.constructible c))) s (.ok v) s' ms) :
      ∃ z pre s₁, (Activity.request q).ComesTo closures s pre z s₁ ∧ z.Constructs closures s₁ v := by
    obtain ⟨z, pre, s₁, hz, hv⟩ := comesTo_of_meet h
    exact ⟨z, _, s₁, .steps (.demand hq s) trivial hz, hv⟩
  cases h with
  | @construct c a _ s' _ ms ends =>
    obtain ⟨n, h⟩ := ends_perform_iff.1 ends
    exact ⟨_, _, _, .step (.construct c a s) trivial, c, a, s', ms, rfl, n, h⟩
  | instantiate ends =>
    obtain ⟨y, s₂, ms₁, ms₂, hy, hend, -⟩ := (ends_perform_iff_of_demand rfl).1 ends
    cases y with
    | error e => cases hend
    | ok w =>
      cases hend
      exact of_demand rfl hy
  | @singleton r key c _ _ _ _ ends bound =>
    obtain ⟨y, s₂, ms₁, ms₂, hy, hend, -⟩ := (ends_perform_iff_of_demand rfl).1 ends
    cases y with
    | error e => cases hend
    | ok w =>
      cases hend
      have hw : (s₂.bind r key (.singleton w)).binding? r key = some (.singleton w) := by
        rw [Store.binding?_bind, if_pos ⟨rfl, rfl⟩]
      cases hw.symm.trans bound
      exact of_demand rfl hy
  | @transient r q key c _ s₁ _ _ _ pre stops ends =>
    obtain ⟨y, s₂, ms₂, hattempt, heq⟩ := stops.outcome_eq (ends_goal_iff.1 ends)
    cases heq
    cases hattempt with
    | value hv => cases hv
    | transient meet =>
      obtain ⟨z, pre, s₃, hz, hv⟩ := comesTo_of_meet meet
      exact ⟨z, _, s₃, stops.comesTo.trans (.steps (.transient q key c s₁) trivial hz), hv⟩

end Activity

/-! ### The identities of constructed instances -/

/-- Identities are given out, never taken back. -/
theorem Effect.fresh_le_of_least (h : Effect.least s s' ms) : s.fresh ≤ s'.fresh := by
  refine h (fun s s' _ => s.fresh ≤ s'.fresh) ?_ fun r key => ?_
  · exact {
      refl := fun s => Nat.le_refl _
      trans := fun h h' => Nat.le_trans h h'
      plain := fun s _ _ => Nat.le_refl _
      skip := fun s => Nat.le_succ _
      remember := fun s _ => Nat.le_refl _
      bind := fun s _ _ _ => Nat.le_refl _
      unbind := fun s _ _ => Nat.le_refl _
      extend := fun _ => Nat.le_refl _ }
  · exact {
      searching := fun s => Nat.le_refl _
      searched := fun s _ => Nat.le_refl _
      provided := fun s _ _ => Nat.le_refl _
      memoized := fun _ _ _ => Nat.le_refl _ }

namespace Activity

variable {x y z : Activity γ σ} {v w : Value γ}

/-- The only end of an activity that is a part of what leads to a store. -/
theorem PartOf.of_ends (h : x.PartOf closures s pre s' ms) {a : x.Answer} (ha : x.Ends closures s a s₁ ms') :
    ∃ post, Effect.least s₁ s' post ∧ ms = pre ++ ms' ++ post := by
  obtain ⟨b, s₂, ms₂, post, hb, hpost, rfl⟩ := h
  obtain ⟨rfl, rfl, rfl⟩ := ha.unique hb
  exact ⟨post, hpost, rfl⟩

/-- The run of a constructor that succeeds is that of its program, in whose end the next identity is given out. -/
theorem Ends.of_constructor {c : Class γ} {a : Arguments γ}
    (h : (Activity.run (.constructible c) a).Ends closures s (.ok v) s' ms) :
    ∃ n d s₁ ms₁, (closures.construct c.body a).runWithin closures n s = some (.ok d, s₁, ms₁) ∧ v = ⟨s₁.fresh, d⟩ ∧
      s' = s₁.skip ∧ ms = .called (.constructible c) a :: (ms₁ ++ [.returned (.constructible c) (.ok v)]) := by
  obtain ⟨n, h⟩ := h
  obtain ⟨ms₂, hrun, rfl⟩ := between_eq_some.1 h
  obtain ⟨x, s₁, ms₁, _, _, _, hx, hmake, heq⟩ := bind_eq_some.1 hrun
  cases heq
  cases x with
  | error e => cases hmake
  | ok d =>
    cases hmake
    exact ⟨n, d, s₁, ms₁, hx, rfl, rfl, by simp⟩

/-- What goes on during the run of a constructor has ended before the program of the constructor has. -/
theorem During.partOf_constructor {c : Class γ} {a : Arguments γ} {n : Nat}
    {b : Except InstantiateError (Data γ (Value γ))}
    (h : (closures.construct c.body a).runWithin closures n s = some (b, s', ms))
    (hy : (Activity.run (.constructible c) a).During closures s pre y s₁) :
    (pre = [] ∧ y = .run (.constructible c) a ∧ s₁ = s) ∨
      y.PartOf closures s₁ pre s' (.called (.constructible c) a :: ms) := by
  cases hy with
  | self => exact .inl ⟨rfl, rfl, rfl⟩
  | inside does during =>
    cases does with
    | constructible asks => exact .inr (during.partOf ((asks.partOf h).after [_]))

namespace Constructs

theorem isStep (h : x.Constructs closures s v) : x.IsStep := by
  obtain ⟨c, a, s', ms, rfl, -⟩ := h
  trivial

theorem fresh_le (h : x.Constructs closures s v) : s.fresh ≤ v.id := by
  obtain ⟨c, a, s', ms, rfl, h⟩ := h
  obtain ⟨n, d, s₁, ms₁, hp, rfl, -, -⟩ := h.of_constructor
  exact Effect.fresh_le_of_least (Program.least hp)

theorem lt_of_partOf (h : x.Constructs closures s v) (hx : x.PartOf closures s pre s' ms) : v.id < s'.fresh := by
  obtain ⟨c, a, s₁, ms₁, rfl, h⟩ := h
  obtain ⟨post, hpost, -⟩ := hx.of_ends h
  obtain ⟨n, d, s₂, ms₂, -, rfl, rfl, -⟩ := h.of_constructor
  exact Nat.lt_of_lt_of_le (Nat.lt_succ_self _) (Effect.fresh_le_of_least hpost)

/-- What goes on during the run of the constructor has ended before the instance is made. -/
theorem partOf_of_during (h : x.Constructs closures s v) (hy : x.During closures s pre y s₁) (hne : ¬ y.IsStep) :
    ∃ s₂ ms₂, y.PartOf closures s₁ pre s₂ ms₂ ∧ s₂.fresh = v.id := by
  have hx := h.isStep
  obtain ⟨c, a, s', ms, rfl, h⟩ := h
  obtain ⟨n, d, s₂, ms₂, hp, rfl, -, -⟩ := h.of_constructor
  rcases hy.partOf_constructor hp with ⟨-, rfl, -⟩ | hpart
  · exact absurd hx hne
  · exact ⟨s₂, _, hpart, rfl⟩

end Constructs

namespace Builds

theorem fresh_le (h : x.Builds closures s v) : s.fresh ≤ v.id := by
  obtain ⟨z, pre, s₁, hz, hv⟩ := h.comesTo
  exact (Effect.fresh_le_of_least hz.least).trans hv.fresh_le

theorem lt_of_partOf (h : x.Builds closures s v) (hx : x.PartOf closures s pre s' ms) : v.id < s'.fresh := by
  obtain ⟨z, pre, s₁, hz, hv⟩ := h.comesTo
  exact hv.lt_of_partOf (hz.during.partOf hx)

private theorem id_ne_of_during (hx : x.Builds closures s v) (hy : y.Builds closures s₁ w)
    (h : x.During closures s ms y s₁) (hne : ¬ (ms = [] ∧ y = x)) : v.id ≠ w.id := by
  obtain ⟨z, pre, s₂, hz, hv⟩ := hx.comesTo
  rcases hz.order h hy.not_isStep with heq | ⟨ms', h⟩ | h | h
  · exact absurd heq hne
  · obtain ⟨s₃, ms₃, hpart, heq⟩ := hv.partOf_of_during h hy.not_isStep
    exact (heq ▸ hy.lt_of_partOf hpart).ne'
  · exact (Nat.lt_of_lt_of_le (hy.lt_of_partOf h) hv.fresh_le).ne'
  · exact (Nat.lt_of_lt_of_le (hv.lt_of_partOf h) hy.fresh_le).ne

/-- Two constructions of a program never give the same instance. -/
theorem id_ne {p : Program γ σ α} (hx : p.During closures s pre x s₁) (hv : x.Builds closures s₁ v)
    (hy : p.During closures s pre' y s₂) (hw : y.Builds closures s₂ w) (hne : ¬ (pre = pre' ∧ x = y)) :
    v.id ≠ w.id := by
  rcases hx.order hy with ⟨ms, h, rfl⟩ | ⟨ms, h, rfl⟩ | h | h
  · refine hv.id_ne_of_during hw h ?_
    rintro ⟨rfl, rfl⟩
    exact hne ⟨(List.append_nil _).symm, rfl⟩
  · refine (hw.id_ne_of_during hv h ?_).symm
    rintro ⟨rfl, rfl⟩
    exact hne ⟨List.append_nil _, rfl⟩
  · exact (Nat.lt_of_lt_of_le (hv.lt_of_partOf h) hw.fresh_le).ne
  · exact (Nat.lt_of_lt_of_le (hw.lt_of_partOf h) hv.fresh_le).ne'

end Builds

end Activity

end Injection
