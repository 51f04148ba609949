import Injection.Proofs.Value.Shape
import Injection.Resolver

/-!
# Pure closures

A run maintains a property of stores if it never leaves a store without it (`Run.Maintains`); what is known of its
result is carried along.

A program is local if it asks no registry for anything and neither reads nor changes what closures remember.  Where all
closures are local, so is all that they run, and registries stay as they are (`level_maintains_of_isLocal`).  Closures
are pure if moreover the shape of what they give depends on the shape of their arguments only.
-/

namespace Injection

open Run

variable {γ σ α β ε : Type}

/-! ### Maintained properties -/

/-- From a store with the property the run leaves one with it, and gives a result as stated. -/
def Run.Maintains (m : Run γ σ α) (I : Store γ σ → Prop) (Q : α → Prop) : Prop :=
  ∀ ⦃s a s' ms⦄, I s → m s = some (a, s', ms) → I s' ∧ Q a

namespace Run.Maintains

variable {I : Store γ σ → Prop} {Q Q' : α → Prop} {m : Run γ σ α}

theorem mono (h : m.Maintains I Q) (hQ : ∀ a, Q a → Q' a) : m.Maintains I Q' := by
  intro s a s' ms hs hm
  obtain ⟨hs', ha⟩ := h hs hm
  exact ⟨hs', hQ a ha⟩

theorem outOfBound : (Run.outOfBound : Run γ σ α).Maintains I Q :=
  fun _ _ _ _ _ h => absurd h outOfBound_ne_some

theorem pure {a : α} (h : Q a) : (pure a : Run γ σ α).Maintains I Q := by
  intro s b s' ms hs hm
  cases hm
  exact ⟨hs, h⟩

theorem bind {f : α → Run γ σ β} {R : β → Prop} (hm : m.Maintains I Q) (hf : ∀ a, Q a → (f a).Maintains I R) :
    (m >>= f).Maintains I R := by
  intro s b s' ms hs h
  obtain ⟨a, s₁, ms₁, b, s₂, ms₂, h₁, h₂, heq⟩ := bind_eq_some.1 h
  cases heq
  obtain ⟨hs₁, ha⟩ := hm hs h₁
  exact hf a ha hs₁ h₂

/-- What is read is as the property says. -/
theorem read_bind {f : Store γ σ → β} {g : β → Run γ σ α} (h : ∀ s, I s → (g (f s)).Maintains I Q) :
    (read f >>= g).Maintains I Q := by
  intro s a s' ms hs hm
  rw [read_bind_apply] at hm
  exact h s hs hs hm

theorem mark (k : Mark γ) : (mark k : Run γ σ Unit).Maintains I fun _ => True := by
  intro s a s' ms hs hm
  cases hm
  exact ⟨hs, trivial⟩

theorem mark_bind {k : Mark γ} {f : Unit → Run γ σ α} (h : (f ()).Maintains I Q) : (Run.mark k >>= f).Maintains I Q :=
  (mark k).bind fun _ _ => h

theorem between {first : Mark γ} {last : α → Mark γ} (h : m.Maintains I Q) : (between first m last).Maintains I Q :=
  mark_bind (h.bind fun _ ha => mark_bind (pure ha))

theorem reporting {m : Run γ σ (Except ResolveError α)} {Q : Except ResolveError α → Prop} (h : m.Maintains I Q) :
    (reporting m).Maintains I Q := by
  refine h.bind fun x hx => ?_
  cases x with
  | ok a => exact pure hx
  | error e => exact mark_bind (pure hx)

end Run.Maintains

/-! ### Local programs -/

/-- The request asks no registry for anything, and leaves alone what closures remember. -/
def Request.IsLocal : Request γ σ → Prop
  | .newRegistry _ | .newFunction _ _ | .newValue _ | .call _ _ | .construct _ _ => True
  | _ => False

/-- All requests of the program are local, whatever answers it gets. -/
def Program.IsLocal : Program γ σ α → Prop
  | .done _ => True
  | .ask q next => q.IsLocal ∧ ∀ x, (next x).IsLocal

theorem Program.IsLocal.maintains {I : Store γ σ → Prop} {perform : (q : Request γ σ) → Run γ σ q.Answer}
    (h : ∀ q : Request γ σ, q.IsLocal → (perform q).Maintains I fun _ => True) {p : Program γ σ α} (hp : p.IsLocal) :
    (p.run perform).Maintains I fun _ => True := by
  induction p with
  | done a => exact .pure trivial
  | ask q next ih => exact (h q hp.1).bind fun x _ => ih x (hp.2 x)

/-- The property depends on what registries hold only. -/
def Store.OfRegistries (I : Store γ σ → Prop) : Prop :=
  ∀ s s' : Store γ σ, s'.registries = s.registries → I s → I s'

namespace Resolver

variable {I : Store γ σ → Prop} {closures : Closures γ σ}

/-- A new identity does not change registries. -/
theorem newValue_maintains (hI : Store.OfRegistries I) (data : Data γ (Value γ)) :
    (newValue data : Run γ σ (Value γ)).Maintains I fun v => v.data = data := by
  intro s v s' ms hs h
  rw [newValue_apply] at h
  cases h
  exact ⟨hI s _ rfl hs, rfl⟩

/-- Local requests leave registries as they are, if closures are local. -/
theorem level_maintains_of_isLocal (hI : Store.OfRegistries I) (hcall : ∀ body a, (closures.call body a).IsLocal)
    (hconstruct : ∀ body a, (closures.construct body a).IsLocal) (n : Nat) {q : Request γ σ} (hq : q.IsLocal) :
    ((level closures n).perform q).Maintains I fun _ => True := by
  induction n generalizing q with
  | zero => exact .outOfBound
  | succ n ih =>
    have hrun {α} {p : Program γ σ α} (hp : p.IsLocal) :
        (p.run (level closures n).perform).Maintains I fun _ => True :=
      hp.maintains fun q => ih
    cases q with
    | newRegistry name =>
      intro s r s' ms hs h
      cases h
      exact ⟨hI s _ rfl hs, trivial⟩
    | newFunction source body =>
      intro s f s' ms hs h
      cases h
      exact ⟨hI s _ rfl hs, trivial⟩
    | newValue data => exact (newValue_maintains hI data).mono fun _ _ => trivial
    | call f a => exact .between (hrun (hcall f.body a))
    | construct c a =>
      refine .between ((hrun (hconstruct c.body a)).bind fun x _ => ?_)
      cases x with
      | error e => exact .pure trivial
      | ok data => exact (newValue_maintains hI data).bind fun _ _ => .pure trivial
    | _ => cases hq

end Resolver

/-! ### Pure closures -/

/-- However the two programs are run, the results agree in what `f` tells of them, if both end. -/
def Program.Agree (closures : Closures γ σ) (f : α → β) (p p' : Program γ σ α) : Prop :=
  ∀ ⦃n n' s s' x x' t t' ms ms'⦄, p.runWithin closures n s = some (x, t, ms) →
    p'.runWithin closures n' s' = some (x', t', ms') → f x = f x'

/-- What the closures do is local, and the shape of what they give depends on the shape of their arguments only. -/
structure Closures.Pure (ρ : Nat → Nat) (closures : Closures γ σ) : Prop where
  call_isLocal : ∀ body a, (closures.call body a).IsLocal
  construct_isLocal : ∀ body a, (closures.construct body a).IsLocal
  call_agree : ∀ body a a', a.shape ρ = a'.shape ρ →
    (closures.call body a).Agree closures (Except.map (Value.shape ρ)) (closures.call body a')
  construct_agree : ∀ body a a', a.shape ρ = a'.shape ρ →
    (closures.construct body a).Agree closures (Except.map (Data.shape ρ)) (closures.construct body a')

/-- Where closures are pure, local programs leave registries as they are. -/
theorem Closures.Pure.runWithin_maintains {ρ : Nat → Nat} {closures : Closures γ σ} (h : closures.Pure ρ)
    {I : Store γ σ → Prop} (hI : Store.OfRegistries I) (n : Nat) {p : Program γ σ α} (hp : p.IsLocal) :
    (p.runWithin closures n).Maintains I fun _ => True :=
  hp.maintains fun _ => Resolver.level_maintains_of_isLocal hI h.call_isLocal h.construct_isLocal n

end Injection
