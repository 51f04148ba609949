import Injection.Proofs.Resolver.During

/-!
# Activities nest

Activities do not overlap: of two that begin during a run, either one goes on during the other, or one has ended before
the other begins (`Program.During.order`).  For two that the same activity does itself, this is read off the rules
(`Activity.Does.order`), and everything else that goes on is inside of those.
-/

namespace Injection

open Run Resolver

variable {γ σ α : Type} {closures : Closures γ σ} {s s₁ s₂ : Store γ σ} {pre pre' : Trace γ}

/-- Of two requests of a program, one is answered before the other is made. -/
theorem Program.Asks.order {p : Program γ σ α} {q q' : Request γ σ} (h : p.Asks closures s pre q s₁)
    (h' : p.Asks closures s pre' q' s₂) :
    (pre = pre' ∧ q = q' ∧ s₁ = s₂) ∨ (Activity.request q).PartOf closures s₁ pre s₂ pre' ∨
      (Activity.request q').PartOf closures s₂ pre' s₁ pre := by
  induction h generalizing pre' q' s₂ with
  | first q next s =>
    cases h' with
    | first => exact .inl ⟨rfl, rfl, rfl⟩
    | later answer asks => exact .inr (.inl ⟨_, _, _, _, answer, asks.least, rfl⟩)
  | later answer asks ih =>
    cases h' with
    | first => exact .inr (.inr ⟨_, _, _, _, answer, asks.least, rfl⟩)
    | later answer' asks' =>
      obtain ⟨rfl, rfl, rfl⟩ := answer.unique answer'
      rcases ih asks' with ⟨rfl, rfl, rfl⟩ | h | h
      · exact .inl ⟨rfl, rfl, rfl⟩
      · exact .inr (.inl (h.after _))
      · exact .inr (.inr (h.after _))

/-- Of two threads, one has ended before the other begins. -/
private theorem times_order {r : Registry} {key : String} {k k' : Nat} {as as' : List (Resolved γ)}
    (h : Resolver.Ends closures (fun low => times (low.perform (.get r key)) k) s as s₁ pre)
    (h' : Resolver.Ends closures (fun low => times (low.perform (.get r key)) k') s as' s₂ pre') :
    (pre = pre' ∧ s₁ = s₂) ∨ (Activity.request (.get r key)).PartOf closures s₁ pre s₂ pre' ∨
      (Activity.request (.get r key)).PartOf closures s₂ pre' s₁ pre := by
  obtain ⟨n, h, h'⟩ := h.both (fun h => .times (h.perform _) k) (fun h => .times (h.perform _) k') h'
  have hget := (level_least closures n).perform (.get r key)
  rcases Nat.lt_trichotomy k k' with hk | rfl | hk
  · obtain ⟨a, s₃, ms, post, ha, hpost, rfl⟩ := times_partOf hget h hk h'
    exact .inr (.inl ⟨a, s₃, ms, post, ⟨n, ha⟩, hpost, rfl⟩)
  · cases h.symm.trans h'
    exact .inl ⟨rfl, rfl⟩
  · obtain ⟨a, s₃, ms, post, ha, hpost, rfl⟩ := times_partOf hget h' hk h
    exact .inr (.inr ⟨a, s₃, ms, post, ⟨n, ha⟩, hpost, rfl⟩)

namespace Activity

/-- Of two activities that the same one does itself, one has ended before the other begins. -/
theorem Does.order {x y z : Activity γ σ} (h : x.Does closures s pre y s₁) (h' : x.Does closures s pre' z s₂) :
    (pre = pre' ∧ y = z ∧ s₁ = s₂) ∨ y.PartOf closures s₁ pre s₂ pre' ∨ z.PartOf closures s₂ pre' s₁ pre := by
  cases h with
  | function asks =>
    cases h' with
    | function asks' =>
      rcases asks.order asks' with ⟨rfl, rfl, rfl⟩ | h | h
      · exact .inl ⟨rfl, rfl, rfl⟩
      · exact .inr (.inl (h.after [_]))
      · exact .inr (.inr (h.after [_]))
  | constructible asks =>
    cases h' with
    | constructible asks' =>
      rcases asks.order asks' with ⟨rfl, rfl, rfl⟩ | h | h
      · exact .inl ⟨rfl, rfl, rfl⟩
      · exact .inr (.inl (h.after [_]))
      · exact .inr (.inr (h.after [_]))
  | demand hq =>
    cases h' with
    | demand hq' =>
      cases hq.symm.trans hq'
      exact .inl ⟨rfl, rfl, rfl⟩
    | call => cases hq
    | construct => cases hq
    | thread => cases hq
  | call =>
    cases h' with
    | demand hq' => cases hq'
    | call => exact .inl ⟨rfl, rfl, rfl⟩
  | construct =>
    cases h' with
    | demand hq' => cases hq'
    | construct => exact .inl ⟨rfl, rfl, rfl⟩
  | thread before lt =>
    cases h' with
    | demand hq' => cases hq'
    | thread before' lt' =>
      rcases times_order before before' with ⟨rfl, rfl⟩ | h | h
      · exact .inl ⟨rfl, rfl, rfl⟩
      · exact .inr (.inl (h.after [_]))
      · exact .inr (.inr (h.after [_]))
  | search =>
    cases h' with
    | search => exact .inl ⟨rfl, rfl, rfl⟩
  | inject =>
    cases h' with
    | inject => exact .inl ⟨rfl, rfl, rfl⟩
    | run all => exact .inr (.inl (all.partOf [_]))
  | run all =>
    cases h' with
    | inject => exact .inr (.inr (all.partOf [_]))
    | run all' =>
      obtain ⟨heq, rfl, rfl⟩ := all.unique all'
      cases heq
      exact .inl ⟨rfl, rfl, rfl⟩
  | bound bound =>
    cases h' with
    | bound bound' =>
      cases bound.symm.trans bound'
      exact .inl ⟨rfl, rfl, rfl⟩
    | inherited unbound => cases bound.symm.trans unbound
  | inherited unbound =>
    cases h' with
    | bound bound => cases bound.symm.trans unbound
    | inherited => exact .inl ⟨rfl, rfl, rfl⟩
  | parent =>
    cases h' with
    | parent => exact .inl ⟨rfl, rfl, rfl⟩
    | failed search => exact .inr (.inl ((search.partOf []).before_plain (by trivial)))
    | absent search => exact .inr (.inl (search.partOf []))
  | failed search =>
    cases h' with
    | parent => exact .inr (.inr ((search.partOf []).before_plain (by trivial)))
    | failed search' =>
      obtain ⟨heq, rfl, rfl⟩ := search.unique search'
      cases heq
      exact .inl ⟨rfl, rfl, rfl⟩
    | absent search' => cases (search.unique search').1
  | absent search =>
    cases h' with
    | parent => exact .inr (.inr (search.partOf []))
    | failed search' => cases (search.unique search').1
    | absent search' =>
      obtain ⟨-, rfl, rfl⟩ := search.unique search'
      exact .inl ⟨rfl, rfl, rfl⟩
  | transient =>
    cases h' with
    | transient => exact .inl ⟨rfl, rfl, rfl⟩
  | provider =>
    cases h' with
    | provider => exact .inl ⟨rfl, rfl, rfl⟩
  | parameter =>
    cases h' with
    | parameter => exact .inl ⟨rfl, rfl, rfl⟩
    | parameters first => exact .inr (.inl (first.partOf []))
  | parameters first =>
    cases h' with
    | parameter => exact .inr (.inr (first.partOf []))
    | parameters first' =>
      obtain ⟨heq, rfl, rfl⟩ := first.unique first'
      exact .inl ⟨rfl, rfl, rfl⟩

/-- Either the one goes on during the other, or one of them has ended before the other begins. -/
def Ordered (closures : Closures γ σ) (y : Activity γ σ) (s₁ : Store γ σ) (pre : Trace γ) (z : Activity γ σ)
    (s₂ : Store γ σ) (pre' : Trace γ) : Prop :=
  (∃ ms, y.During closures s₁ ms z s₂ ∧ pre' = pre ++ ms) ∨ (∃ ms, z.During closures s₂ ms y s₁ ∧ pre = pre' ++ ms) ∨
    y.PartOf closures s₁ pre s₂ pre' ∨ z.PartOf closures s₂ pre' s₁ pre

variable {x y z : Activity γ σ}

theorem Ordered.after (h : y.Ordered closures s₁ pre z s₂ pre') (first : Trace γ) :
    y.Ordered closures s₁ (first ++ pre) z s₂ (first ++ pre') := by
  rcases h with ⟨ms, h, rfl⟩ | ⟨ms, h, rfl⟩ | h | h
  · exact .inl ⟨ms, h, (List.append_assoc ..).symm⟩
  · exact .inr (.inl ⟨ms, h, (List.append_assoc ..).symm⟩)
  · exact .inr (.inr (.inl (h.after first)))
  · exact .inr (.inr (.inr (h.after first)))

theorem Ordered.symm (h : y.Ordered closures s₁ pre z s₂ pre') : z.Ordered closures s₂ pre' y s₁ pre := by
  rcases h with h | h | h | h
  · exact .inr (.inl h)
  · exact .inl h
  · exact .inr (.inr (.inr h))
  · exact .inr (.inr (.inl h))

/-- What goes on during an activity has ended before anything begins that the activity has ended before. -/
theorem Ordered.of_partOf {y' z' : Activity γ σ} {s₁' s₂' : Store γ σ} {ms ms' : Trace γ}
    (h : y.PartOf closures s₁ pre s₂ pre') (hy : y.During closures s₁ ms y' s₁')
    (hz : z.During closures s₂ ms' z' s₂') : y'.Ordered closures s₁' (pre ++ ms) z' s₂' (pre' ++ ms') :=
  .inr (.inr (.inl ((hy.partOf h).before hz.least)))

theorem During.order (h : x.During closures s pre y s₁) (h' : x.During closures s pre' z s₂) :
    y.Ordered closures s₁ pre z s₂ pre' := by
  induction h generalizing pre' z s₂ with
  | self x s => exact .inl ⟨pre', h', rfl⟩
  | inside does during ih =>
    cases h' with
    | self => exact .inr (.inl ⟨_, .inside does during, rfl⟩)
    | inside does' during' =>
      rcases does.order does' with ⟨rfl, rfl, rfl⟩ | h | h
      · exact (ih during').after _
      · exact .of_partOf h during during'
      · exact (Ordered.of_partOf h during' during).symm

end Activity

/-- Of two activities during a program, either one goes on during the other, or one has ended before the other
begins. -/
theorem Program.During.order {p : Program γ σ α} {y z : Activity γ σ} (h : p.During closures s pre y s₁)
    (h' : p.During closures s pre' z s₂) : y.Ordered closures s₁ pre z s₂ pre' := by
  obtain ⟨q, s₃, ms, ms', hq, hy, rfl⟩ := h
  obtain ⟨q', s₄, ms₁, ms₁', hq', hz, rfl⟩ := h'
  rcases hq.order hq' with ⟨rfl, rfl, rfl⟩ | h | h
  · exact (hy.order hz).after ms
  · exact .of_partOf h hy hz
  · exact (Activity.Ordered.of_partOf h hz hy).symm

end Injection
