import Injection.Registry.Store
import Injection.Trace

/-!
# Runs

A run starts in a store and gives a result, the store it leaves and the trace of what happened on the way.  A run
that does not end within its bound gives nothing at all, which is different from ending with an error.
-/

namespace Injection

def Run (γ σ α : Type) :=
  Store γ σ → Option (α × Store γ σ × Trace γ)

namespace Run

variable {γ σ α β : Type}

def done (a : α) : Run γ σ α :=
  fun s => some (a, s, [])

def andThen (m : Run γ σ α) (f : α → Run γ σ β) : Run γ σ β := fun s =>
  (m s).bind fun x => (f x.1 x.2.1).map fun y => (y.1, y.2.1, x.2.2 ++ y.2.2)

instance : Monad (Run γ σ) where
  pure := done
  bind := andThen

theorem pure_apply (a : α) (s : Store γ σ) : (pure a : Run γ σ α) s = some (a, s, []) := rfl

theorem bind_apply (m : Run γ σ α) (f : α → Run γ σ β) (s : Store γ σ) :
    (m >>= f) s = (m s).bind fun x => (f x.1 x.2.1).map fun y => (y.1, y.2.1, x.2.2 ++ y.2.2) := rfl

/-- A run of two parts ends if both do, the second in the store that the first leaves. -/
theorem bind_eq_some {m : Run γ σ α} {f : α → Run γ σ β} {s : Store γ σ} {x : β × Store γ σ × Trace γ} :
    (m >>= f) s = some x ↔
      ∃ a s' ms b s'' ms', m s = some (a, s', ms) ∧ f a s' = some (b, s'', ms') ∧ x = (b, s'', ms ++ ms') := by
  simp only [bind_apply, Option.bind_eq_some_iff, Option.map_eq_some_iff]
  constructor
  · rintro ⟨⟨a, s', ms⟩, hm, ⟨b, s'', ms'⟩, hf, rfl⟩
    exact ⟨a, s', ms, b, s'', ms', hm, hf, rfl⟩
  · rintro ⟨a, s', ms, b, s'', ms', hm, hf, rfl⟩
    exact ⟨(a, s', ms), hm, (b, s'', ms'), hf, rfl⟩

instance : LawfulMonad (Run γ σ) := LawfulMonad.mk' _
  (fun m => by
    funext s
    change (m s).bind (fun x => (done x.1 x.2.1).map _) = m s
    cases m s <;> simp [done])
  (fun a f => by
    funext s
    rw [bind_apply, pure_apply]
    simp)
  (fun m f g => by
    funext s
    simp only [bind_apply]
    cases m s with
    | none => rfl
    | some x =>
      simp only [Option.bind_some]
      cases f x.1 x.2.1 with
      | none => rfl
      | some y =>
        simp only [Option.map_some, Option.bind_some, Option.map_map]
        congr 1
        funext z
        simp)

/-- A run that reached its bound. -/
def outOfBound : Run γ σ α :=
  fun _ => none

def read (f : Store γ σ → α) : Run γ σ α :=
  fun s => some (f s, s, [])

def change (f : Store γ σ → Store γ σ) : Run γ σ Unit :=
  fun s => some ((), f s, [])

def mark (m : Mark γ) : Run γ σ Unit :=
  fun s => some ((), s, [m])

def log (e : Event) : Run γ σ Unit :=
  mark (.logged e)

/-- The run between two marks, the second of which may depend on its result. -/
def between (first : Mark γ) (m : Run γ σ α) (last : α → Mark γ) : Run γ σ α := do
  mark first
  let a ← m
  mark (last a)
  return a

/-- The run inside a span. -/
def inside (s : Span) (m : Run γ σ α) : Run γ σ α :=
  between (.entered s) m fun _ => .left s

/-! ### When runs end -/

theorem outOfBound_ne_some {s : Store γ σ} {x : α × Store γ σ × Trace γ} :
    (outOfBound : Run γ σ α) s ≠ some x :=
  nofun

theorem pure_eq_some {a : α} {s : Store γ σ} {x : α × Store γ σ × Trace γ} :
    (pure a : Run γ σ α) s = some x ↔ x = (a, s, []) := by
  rw [pure_apply, Option.some.injEq, eq_comm]

/-- Reading leaves no trace. -/
theorem read_bind_apply (f : Store γ σ → α) (m : α → Run γ σ β) (s : Store γ σ) :
    (read f >>= m) s = m (f s) s := by
  rw [bind_apply, read, Option.bind_some]
  cases m (f s) s <;> rfl

theorem mark_bind_eq_some {m : Mark γ} {f : Unit → Run γ σ α} {s s' : Store γ σ} {a : α} {ms : Trace γ} :
    (mark m >>= f) s = some (a, s', ms) ↔ ∃ ms', f () s = some (a, s', ms') ∧ ms = m :: ms' := by
  rw [bind_eq_some]
  constructor
  · rintro ⟨_, _, _, _, _, ms', h, h', heq⟩
    cases h
    cases heq
    exact ⟨ms', h', rfl⟩
  · rintro ⟨ms', h, rfl⟩
    exact ⟨(), s, [m], a, s', ms', rfl, h, rfl⟩

theorem between_eq_some {m : Run γ σ α} {first : Mark γ} {last : α → Mark γ} {s s' : Store γ σ} {a : α}
    {ms : Trace γ} :
    between first m last s = some (a, s', ms) ↔
      ∃ ms', m s = some (a, s', ms') ∧ ms = first :: (ms' ++ [last a]) := by
  unfold between
  rw [mark_bind_eq_some]
  constructor
  · rintro ⟨_, h, rfl⟩
    obtain ⟨b, s₁, ms₁, c, s₂, ms₂, h₁, h₂, heq⟩ := bind_eq_some.1 h
    obtain ⟨ms₃, h₃, rfl⟩ := mark_bind_eq_some.1 h₂
    cases h₃
    cases heq
    exact ⟨ms₁, h₁, rfl⟩
  · rintro ⟨ms', h, rfl⟩
    exact ⟨_, bind_eq_some.2 ⟨a, s', ms', a, s', [last a], h, mark_bind_eq_some.2 ⟨[], rfl, rfl⟩, rfl⟩, rfl⟩

end Run

end Injection
