import Injection.Proofs.Resolver.During

/-!
# Where a lookup stops

A lookup of a key stops at a binding: at that of the registry itself, if it has one, and otherwise at the one at which
the search from the first parent that gives a value stops.  What the attempt at this binding gives is what the lookup
gives (`Stops.outcome_eq`, `Stops.exists_resolves`), and every lookup that gives a value stops somewhere
(`Resolves.exists_stops`).
-/

namespace Injection

open Run

variable {γ σ : Type}

/-- The outcome of a goal that is met with one, if it was found. -/
def Goal.outcome? : (g : Goal γ) → g.Answer → Option (Resolved γ)
  | .meet _ _, a => some a
  | .search _ _, a => a
  | .parents _ _, a => a
  | .attempt _ _ _, a => some a
  | .all _ _, _ => none

/-- The goal is to look the key up. -/
def Goal.LooksUp (key : String) : Goal γ → Prop
  | .meet _ (.key k) | .search _ k | .parents k _ => k = key
  | _ => False

namespace Resolver

/-- The lookup of the key stops at this binding of this registry, in this store, having left this trace. -/
inductive Stops (closures : Closures γ σ) (key : String) :
    Goal γ → Store γ σ → Trace γ → Registry → Binding γ → Store γ σ → Prop
  | lookup {r q : Registry} {b : Binding γ} {s s₁ : Store γ σ} {ms : Trace γ}
    (stops : Stops closures key (.search r key) s ms q b s₁) :
    Stops closures key (.meet r (.key key)) s (.entered (.get key r.name) :: ms) q b s₁
  | bound {r : Registry} {b : Binding γ} {s : Store γ σ} (bound : s.binding? r key = some b) :
    Stops closures key (.search r key) s [.searching r key] r b s
  | inherited {r q : Registry} {b : Binding γ} {s s₁ : Store γ σ} {ms : Trace γ} (unbound : s.binding? r key = none)
    (stops : Stops closures key (.parents key (s.parents r).reverse) s ms q b s₁) :
    Stops closures key (.search r key) s (.searching r key :: ms) q b s₁
  | found {p q : Registry} {v : Value γ} {b : Binding γ} {s s₁ s' : Store γ σ} {ms ms' : Trace γ}
    (search : Resolves closures (.search p key) s (some (.ok v)) s' ms')
    (stops : Stops closures key (.search p key) s ms q b s₁) (ps : List Registry) :
    Stops closures key (.parents key (p :: ps)) s ms q b s₁
  | failed {p q : Registry} {ps : List Registry} {e : ResolveError} {b : Binding γ} {s s₁ s₂ : Store γ σ}
    {ms ms' : Trace γ} (search : Resolves closures (.search p key) s (some (.error e)) s₁ ms)
    (stops : Stops closures key (.parents key ps) s₁ ms' q b s₂) :
    Stops closures key (.parents key (p :: ps)) s (ms ++ [.logged (.parentFailed p.name e.message)] ++ ms') q b s₂
  | absent {p q : Registry} {ps : List Registry} {b : Binding γ} {s s₁ s₂ : Store γ σ} {ms ms' : Trace γ}
    (search : Resolves closures (.search p key) s none s₁ ms)
    (stops : Stops closures key (.parents key ps) s₁ ms' q b s₂) :
    Stops closures key (.parents key (p :: ps)) s (ms ++ ms') q b s₂

variable {closures : Closures γ σ} {key : String} {g : Goal γ} {s s' s₁ : Store γ σ} {ms pre : Trace γ} {q : Registry}
  {b : Binding γ}

namespace Stops

theorem binding?_eq (h : Stops closures key g s pre q b s₁) : s₁.binding? q key = some b := by
  induction h with
  | bound bound => exact bound
  | lookup _ ih => exact ih
  | inherited _ _ ih => exact ih
  | found _ _ _ ih => exact ih
  | failed _ _ ih => exact ih
  | absent _ _ ih => exact ih

/-- The lookup gives what the attempt gives. -/
theorem outcome_eq (h : Stops closures key g s pre q b s₁) {a : g.Answer} (ha : Resolves closures g s a s' ms) :
    ∃ x s₂ ms₂, Resolves closures (.attempt q key b) s₁ x s₂ ms₂ ∧ g.outcome? a = some x := by
  induction h generalizing s' ms with
  | lookup _ ih =>
    cases ha with
    | key search =>
      obtain ⟨x, s₂, ms₂, hx, heq⟩ := ih search
      cases (show _ = some x from heq)
      exact ⟨x, s₂, ms₂, hx, rfl⟩
  | bound bound =>
    cases ha with
    | bound bound' attempt =>
      cases bound.symm.trans bound'
      exact ⟨_, _, _, attempt, rfl⟩
    | inherited unbound => cases bound.symm.trans unbound
  | inherited unbound _ ih =>
    cases ha with
    | bound bound => cases bound.symm.trans unbound
    | inherited _ parents => exact ih parents
  | found search _ _ ih =>
    cases ha with
    | found search' => exact ih search'
    | failed search' => cases (search.unique search').1
    | absent search' => cases (search.unique search').1
  | failed search _ ih =>
    cases ha with
    | found search' => cases (search.unique search').1
    | failed search' rest =>
      obtain ⟨-, rfl, -⟩ := search.unique search'
      exact ih rest
    | absent search' => cases (search.unique search').1
  | absent search _ ih =>
    cases ha with
    | found search' => cases (search.unique search').1
    | failed search' => cases (search.unique search').1
    | absent search' rest =>
      obtain ⟨-, rfl, -⟩ := search.unique search'
      exact ih rest

/-- If the attempt gives a value, then the lookup ends with it. -/
theorem exists_resolves (h : Stops closures key g s pre q b s₁) {v : Value γ} {s₂ : Store γ σ} {ms₂ : Trace γ}
    (hv : Resolves closures (.attempt q key b) s₁ (.ok v) s₂ ms₂) :
    ∃ a s' ms, Resolves closures g s a s' ms ∧ g.outcome? a = some (.ok v) := by
  induction h with
  | lookup _ ih =>
    obtain ⟨a, s', ms, ha, heq⟩ := ih hv
    cases (show a = some (.ok v) from heq)
    exact ⟨_, s', _, .key ha, rfl⟩
  | bound bound => exact ⟨_, _, _, .bound bound hv, rfl⟩
  | inherited unbound _ ih =>
    obtain ⟨a, s', ms, ha, heq⟩ := ih hv
    exact ⟨a, s', _, .inherited unbound ha, heq⟩
  | found search _ ps ih =>
    obtain ⟨a, s', ms, ha, heq⟩ := ih hv
    cases (show a = some (.ok v) from heq)
    exact ⟨_, s', _, .found ha, rfl⟩
  | failed search _ ih =>
    obtain ⟨a, s', ms, ha, heq⟩ := ih hv
    exact ⟨a, s', _, .failed search ha, heq⟩
  | absent search _ ih =>
    obtain ⟨a, s', ms, ha, heq⟩ := ih hv
    exact ⟨a, s', _, .absent search ha, heq⟩

end Stops

/-- Every lookup that gives a value stops at some binding. -/
theorem Resolves.exists_stops {a : g.Answer} (h : Resolves closures g s a s' ms) (hg : g.LooksUp key) {v : Value γ}
    (ha : g.outcome? a = some (.ok v)) : ∃ pre q b s₁, Stops closures key g s pre q b s₁ := by
  induction h with
  | @key r k s s' x ms search ih =>
    cases (show k = key from hg)
    rcases x with _ | e | w
    · cases ha
    · cases ha
    · obtain ⟨pre, q, b, s₁, h⟩ := ih rfl ha
      exact ⟨_, q, b, s₁, .lookup h⟩
  | bound bound =>
    cases (show _ = key from hg)
    exact ⟨_, _, _, _, .bound bound⟩
  | inherited unbound _ ih =>
    cases (show _ = key from hg)
    obtain ⟨pre, q, b, s₁, h⟩ := ih rfl ha
    exact ⟨_, q, b, s₁, .inherited unbound h⟩
  | exhausted => cases ha
  | found search ih =>
    cases (show _ = key from hg)
    obtain ⟨pre, q, b, s₁, h⟩ := ih rfl ha
    exact ⟨_, q, b, s₁, .found search h _⟩
  | failed search _ _ ih =>
    cases (show _ = key from hg)
    obtain ⟨pre, q, b, s₁, h⟩ := ih rfl ha
    exact ⟨_, q, b, s₁, .failed search h⟩
  | absent search _ _ ih =>
    cases (show _ = key from hg)
    obtain ⟨pre, q, b, s₁, h⟩ := ih rfl ha
    exact ⟨_, q, b, s₁, .absent search h⟩
  | _ => exact hg.elim

end Resolver

end Injection
