import Injection.Proofs.Resolver.Pure
import Injection.Proofs.Resolver.Rules

/-!
# What keys mean

A store gives keys a meaning that does not speak of runs: `Means` derives the outcome of a search, of resolving keys
and of running a closure from the bindings and parents of the store, as the rules of resolution do, except that nothing
is ever memoized and values count up to identity only.  A closure gives what some run of it gives (`Returns`).

Where closures are pure, there is at most one outcome: `Means.unique`.
-/

namespace Injection

variable {γ σ : Type}

/-! ### What closures give -/

/-- The code that is run for a function or a class. -/
inductive Code (γ : Type)
  | call (body : γ)
  | construct (body : γ)

/-- Some run of the code, with arguments of the given shape, gives a result of the given shape. -/
def Closures.Returns (closures : Closures γ σ) (ρ : Nat → Nat) (a : Arguments γ)
    (x : Except InstantiateError (Value γ)) : Code γ → Prop
  | .call body => ∃ a₀ n s x₀ s' ms, a₀.shape ρ = a ∧
      (closures.call body a₀).runWithin closures n s = some (x₀, s', ms) ∧ x₀.map (Value.shape ρ) = x
  | .construct body => ∃ a₀ n s x₀ s' ms, a₀.shape ρ = a ∧
      (closures.construct body a₀).runWithin closures n s = some (x₀, s', ms) ∧
      (x₀.map (Data.shape ρ)).map (Value.mk 0) = x

theorem Closures.Returns.unique {closures : Closures γ σ} {ρ : Nat → Nat} (hpure : closures.Pure ρ) {a : Arguments γ}
    {x y : Except InstantiateError (Value γ)} {c : Code γ} (hx : closures.Returns ρ a x c)
    (hy : closures.Returns ρ a y c) : x = y := by
  cases c with
  | call body =>
    obtain ⟨a₀, n, s, x₀, s', ms, ha, hrun, rfl⟩ := hx
    obtain ⟨a₁, n', t, y₀, t', ms', ha', hrun', rfl⟩ := hy
    exact hpure.call_agree body a₀ a₁ (ha.trans ha'.symm) hrun hrun'
  | construct body =>
    obtain ⟨a₀, n, s, x₀, s', ms, ha, hrun, rfl⟩ := hx
    obtain ⟨a₁, n', t, y₀, t', ms', ha', hrun', rfl⟩ := hy
    rw [hpure.construct_agree body a₀ a₁ (ha.trans ha'.symm) hrun hrun']

/-! ### What keys mean -/

/-- What can be asked of a store. -/
inductive Query (γ : Type)
  /-- The first outcome for the key, from a registry on. -/
  | search (r : Registry) (key : String)
  | parents (key : String) (ps : List Registry)
  | attempt (r : Registry) (b : Binding γ)
  | resolve (r : Registry) (key : String)
  | all (r : Registry) (keys : List String)
  /-- Code run with the keys resolved in the registry. -/
  | run (r : Registry) (receiver : Option (Value γ)) (keys : List String) (c : Code γ)

abbrev Query.Answer : Query γ → Type
  | .search _ _ => Option (Resolved γ)
  | .parents _ _ => Option (Resolved γ)
  | .attempt _ _ => Resolved γ
  | .resolve _ _ => Resolved γ
  | .all _ _ => Except ResolveError (List (Value γ))
  | .run _ _ _ _ => Resolved γ

/-- The query has this answer in the store, up to the identities of values. -/
inductive Means (closures : Closures γ σ) (ρ : Nat → Nat) (s : Store γ σ) : (q : Query γ) → q.Answer → Prop
  | bound {r : Registry} {key : String} {b : Binding γ} {x : Resolved γ} (hb : s.binding? r key = some b)
    (h : Means closures ρ s (.attempt r b) x) : Means closures ρ s (.search r key) (some x)
  | inherited {r : Registry} {key : String} {x : Option (Resolved γ)} (hb : s.binding? r key = none)
    (h : Means closures ρ s (.parents key (s.parents r).reverse) x) : Means closures ρ s (.search r key) x
  | exhausted {key : String} : Means closures ρ s (.parents key []) none
  | found {key : String} {p : Registry} {ps : List Registry} {v : Value γ}
    (h : Means closures ρ s (.search p key) (some (.ok v))) : Means closures ρ s (.parents key (p :: ps)) (some (.ok v))
  | failed {key : String} {p : Registry} {ps : List Registry} {e : ResolveError} {x : Option (Resolved γ)}
    (h : Means closures ρ s (.search p key) (some (.error e))) (hps : Means closures ρ s (.parents key ps) x) :
    Means closures ρ s (.parents key (p :: ps)) x
  | missed {key : String} {p : Registry} {ps : List Registry} {x : Option (Resolved γ)}
    (h : Means closures ρ s (.search p key) none) (hps : Means closures ρ s (.parents key ps) x) :
    Means closures ρ s (.parents key (p :: ps)) x
  | constant {r : Registry} {v : Value γ} : Means closures ρ s (.attempt r (.constant v)) (.ok (v.shape ρ))
  | singleton {r : Registry} {v : Value γ} : Means closures ρ s (.attempt r (.singleton v)) (.ok (v.shape ρ))
  | transient {r : Registry} {c : Class γ} {x : Resolved γ}
    (h : Means closures ρ s (.run r none c.signature.keys (.construct c.body)) x) :
    Means closures ρ s (.attempt r (.transient c)) x
  | provider {r : Registry} {f : Function γ} {cached : Bool} {x : Resolved γ}
    (h : Means closures ρ s (.run r none f.signature.keys (.call f.body)) x) :
    Means closures ρ s (.attempt r (.provider f cached)) x
  | resolved {r : Registry} {key : String} {x : Resolved γ} (h : Means closures ρ s (.search r key) (some x)) :
    Means closures ρ s (.resolve r key) x
  | unregistered {r : Registry} {key : String} (h : Means closures ρ s (.search r key) none) :
    Means closures ρ s (.resolve r key) (.error (Resolver.unregisteredIn s r key))
  | nil {r : Registry} : Means closures ρ s (.all r []) (.ok [])
  | cons {r : Registry} {key : String} {keys : List String} {v : Value γ} {x : Except ResolveError (List (Value γ))}
    (h : Means closures ρ s (.resolve r key) (.ok v)) (hkeys : Means closures ρ s (.all r keys) x) :
    Means closures ρ s (.all r (key :: keys)) (x.map (v :: ·))
  | stopped {r : Registry} {key : String} {keys : List String} {e : ResolveError}
    (h : Means closures ρ s (.resolve r key) (.error e)) : Means closures ρ s (.all r (key :: keys)) (.error e)
  | returned {r : Registry} {receiver : Option (Value γ)} {keys : List String} {c : Code γ} {vs : List (Value γ)}
    {x : Except InstantiateError (Value γ)} (h : Means closures ρ s (.all r keys) (.ok vs))
    (hx : closures.Returns ρ ⟨receiver, vs⟩ x c) :
    Means closures ρ s (.run r receiver keys c) (x.mapError .instantiate)
  | unresolved {r : Registry} {receiver : Option (Value γ)} {keys : List String} {c : Code γ} {e : ResolveError}
    (h : Means closures ρ s (.all r keys) (.error e)) : Means closures ρ s (.run r receiver keys c) (.error e)

namespace Means

variable {closures : Closures γ σ} {ρ : Nat → Nat} {s : Store γ σ}

/-- A query has one answer at most. -/
theorem unique (hpure : closures.Pure ρ) {q : Query γ} {x y : q.Answer} (hx : Means closures ρ s q x)
    (hy : Means closures ρ s q y) : x = y := by
  induction hx with
  | bound hb h ih =>
    cases hy with
    | bound hb' h' =>
      rw [hb] at hb'
      cases hb'
      rw [ih h']
    | inherited hb' =>
      rw [hb] at hb'
      cases hb'
  | inherited hb h ih =>
    cases hy with
    | bound hb' =>
      rw [hb] at hb'
      cases hb'
    | inherited hb' h' => exact ih h'
  | exhausted =>
    cases hy
    rfl
  | found h ih =>
    cases hy with
    | found h' => exact ih h'
    | failed h' => cases ih h'
    | missed h' => cases ih h'
  | failed h hps ih ihps =>
    cases hy with
    | found h' => cases ih h'
    | failed h' hps' => exact ihps hps'
    | missed h' => cases ih h'
  | missed h hps ih ihps =>
    cases hy with
    | found h' => cases ih h'
    | failed h' => cases ih h'
    | missed h' hps' => exact ihps hps'
  | constant =>
    cases hy
    rfl
  | singleton =>
    cases hy
    rfl
  | transient h ih =>
    cases hy with
    | transient h' => exact ih h'
  | provider h ih =>
    cases hy with
    | provider h' => exact ih h'
  | resolved h ih =>
    cases hy with
    | resolved h' => exact Option.some.inj (ih h')
    | unregistered h' => cases ih h'
  | unregistered h ih =>
    cases hy with
    | resolved h' => cases ih h'
    | unregistered h' => rfl
  | nil =>
    cases hy
    rfl
  | cons h hkeys ih ihkeys =>
    cases hy with
    | cons h' hkeys' =>
      cases ih h'
      rw [ihkeys hkeys']
    | stopped h' => cases ih h'
  | stopped h ih =>
    cases hy with
    | cons h' => cases ih h'
    | stopped h' =>
      cases ih h'
      rfl
  | returned h hx ih =>
    cases hy with
    | returned h' hx' =>
      cases ih h'
      rw [hx.unique hpure hx']
    | unresolved h' => cases ih h'
  | unresolved h ih =>
    cases hy with
    | returned h' => cases ih h'
    | unresolved h' =>
      cases ih h'
      rfl

end Means

end Injection
