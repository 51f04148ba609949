import Injection.Proofs.Registry.Reachable
import Injection.Proofs.Resolver.Meaning
import Mathlib.Data.List.Forall2

/-!
# Caching cannot be observed

Where closures are pure, it makes no difference to the answers of lookups which providers are cached and what has been
looked up before, as long as instances of one shape are not told apart.

The invariant is that a store only ever differs from the first one in flags and in memoized constants, each of which has
the shape that its provider means in the first store (`Store.Memoizes`).  Every rule of resolution keeps it and answers
with what keys mean in the first store (`level_sound`), so equal questions get equal answers: `caching_transparent`.
-/

namespace Injection

open Run

variable {γ σ : Type}

/-! ### Stores that differ in caching -/

/-- The binding with its value not kept. -/
def Binding.uncached : Binding γ → Binding γ
  | .provider f _ => .provider f false
  | b => b

/-- The stores differ at most in which providers are cached.  What closures remember and which identities are free plays
no part. -/
structure Store.SameButCaching (s s' : Store γ σ) : Prop where
  parents : ∀ r, s'.parents r = s.parents r
  bindings : ∀ r key, (s'.binding? r key).map Binding.uncached = (s.binding? r key).map Binding.uncached

/-- The store differs from the first one in caching and in memoized values, which the first one means. -/
structure Store.Memoizes (closures : Closures γ σ) (ρ : Nat → Nat) (first s : Store γ σ) : Prop where
  parents : ∀ r, s.parents r = first.parents r
  bindings : ∀ r key, (s.binding? r key).map Binding.uncached = (first.binding? r key).map Binding.uncached ∨
    ∃ f cached v, first.binding? r key = some (.provider f cached) ∧ s.binding? r key = some (.constant v) ∧
      Means closures ρ first (.run r none f.signature.keys (.call f.body)) (.ok (v.shape ρ))

section

variable {closures : Closures γ σ} {ρ : Nat → Nat} {first s s' : Store γ σ} {r : Registry} {key : String}

theorem Binding.eq_provider_of_uncached {b : Binding γ} {f : Function γ} {cached : Bool}
    (h : b.uncached = (Binding.provider f cached).uncached) : ∃ cached', b = .provider f cached' := by
  cases b with
  | provider g cached' =>
    cases h
    exact ⟨cached', rfl⟩
  | _ => cases h

theorem Means.attempt_congr {b b' : Binding γ} (h : b.uncached = b'.uncached) {x : Resolved γ}
    (hb : Means closures ρ first (.attempt r b) x) : Means closures ρ first (.attempt r b') x := by
  cases hb with
  | provider h' =>
    obtain ⟨cached, rfl⟩ := Binding.eq_provider_of_uncached h.symm
    exact .provider h'
  | constant =>
    cases b' <;> cases h
    exact .constant
  | singleton =>
    cases b' <;> cases h
    exact .singleton
  | transient h' =>
    cases b' <;> cases h
    exact .transient h'

namespace Store.Memoizes

theorem of_sameButCaching (h : first.SameButCaching s) : Memoizes closures ρ first s :=
  ⟨h.parents, fun r key => .inl (h.bindings r key)⟩

theorem refl (s : Store γ σ) : Memoizes closures ρ s s :=
  of_sameButCaching ⟨fun _ => rfl, fun _ _ => rfl⟩

theorem ofRegistries : OfRegistries (Memoizes closures ρ first) := by
  intro s s' h hs
  have hcontents (r : Registry) : s'.contents r = s.contents r := by
    unfold contents
    rw [h]
  constructor
  case parents =>
    intro r
    rw [← hs.parents r, Store.parents, hcontents]
    rfl
  case bindings =>
    intro r key
    have hbinding : s'.binding? r key = s.binding? r key := by
      unfold binding?
      rw [hcontents]
    rw [hbinding]
    exact hs.bindings r key

/-- A memoized value that the first store means may be put in the place of its provider. -/
theorem bind (hs : Memoizes closures ρ first s) {f : Function γ} {cached : Bool} {v : Value γ}
    (hf : first.binding? r key = some (.provider f cached))
    (hv : Means closures ρ first (.run r none f.signature.keys (.call f.body)) (.ok (v.shape ρ))) :
    Memoizes closures ρ first (s.bind r key (.constant v)) := by
  constructor
  case parents =>
    intro q
    rw [parents_bind, hs.parents]
  case bindings =>
    intro q k
    rw [binding?_bind]
    by_cases hq : q = r ∧ k = key
    · obtain ⟨rfl, rfl⟩ := hq
      rw [if_pos ⟨rfl, rfl⟩]
      exact .inr ⟨f, cached, v, hf, rfl, hv⟩
    · rw [if_neg hq]
      exact hs.bindings q k

theorem binding?_eq_none_iff (hs : Memoizes closures ρ first s) :
    s.binding? r key = none ↔ first.binding? r key = none := by
  rcases hs.bindings r key with h | ⟨f, cached, v, hf, hv, -⟩
  · rw [← Option.map_eq_none_iff (f := Binding.uncached), h, Option.map_eq_none_iff]
  · rw [hf, hv]
    simp

theorem ancestors_eq (hfirst : first.Acyclic) (hs : Memoizes closures ρ first s) (r : Registry) :
    s.ancestors r = first.ancestors r :=
  hfirst.ancestors_congr (hfirst.congr hs.parents) hs.parents r

end Store.Memoizes

/-! ### The rules of resolution -/

namespace Resolver

/-- The resolver keeps the invariant and answers with what keys mean in the first store. -/
structure Sound (closures : Closures γ σ) (ρ : Nat → Nat) (first : Store γ σ) (low : Resolver γ σ) : Prop where
  resolve : ∀ r key, (low.resolve r key).Maintains (first.Memoizes closures ρ) fun x =>
    Means closures ρ first (.resolve r key) (x.map (Value.shape ρ))
  search : ∀ r key, (low.search r key).Maintains (first.Memoizes closures ρ) fun x =>
    Means closures ρ first (.search r key) (x.map (Except.map (Value.shape ρ)))

variable {low : Resolver γ σ} {n : Nat}

theorem Sound.resolveAll (h : Sound closures ρ first low) (r : Registry) (keys : List String) :
    (resolveAll low r keys).Maintains (first.Memoizes closures ρ) fun x =>
      Means closures ρ first (.all r keys) (x.map (List.map (Value.shape ρ))) := by
  induction keys with
  | nil => exact .pure .nil
  | cons key keys ih =>
    refine (h.resolve r key).bind fun x hx => ?_
    cases x with
    | error e => exact .pure (.stopped hx)
    | ok v =>
      refine ih.bind fun xs hxs => ?_
      have hcons := Means.cons hx hxs
      cases xs with
      | error e => exact .pure hcons
      | ok vs => exact .pure hcons

theorem runFunction_returns (hpure : closures.Pure ρ) (f : Function γ) (a : Arguments γ) :
    (runFunction closures (level closures n) f a).Maintains (first.Memoizes closures ρ) fun x =>
      closures.Returns ρ (a.shape ρ) (x.map (Value.shape ρ)) (.call f.body) := by
  refine .between fun s x s' ms hs h => ?_
  obtain ⟨hs', -⟩ := hpure.runWithin_maintains Store.Memoizes.ofRegistries n (hpure.call_isLocal f.body a) hs h
  exact ⟨hs', a, n, s, x, s', ms, rfl, h, rfl⟩

theorem runConstructor_returns (hpure : closures.Pure ρ) (c : Class γ) (a : Arguments γ) :
    (runConstructor closures (level closures n) c a).Maintains (first.Memoizes closures ρ) fun x =>
      closures.Returns ρ (a.shape ρ) (x.map (Value.shape ρ)) (.construct c.body) := by
  have hdata : ((closures.construct c.body a).run (level closures n).perform).Maintains (first.Memoizes closures ρ)
      fun x => closures.Returns ρ (a.shape ρ) ((x.map (Data.shape ρ)).map (Value.mk 0)) (.construct c.body) := by
    intro s x s' ms hs h
    obtain ⟨hs', -⟩ := hpure.runWithin_maintains Store.Memoizes.ofRegistries n (hpure.construct_isLocal c.body a) hs h
    exact ⟨hs', a, n, s, x, s', ms, rfl, h, rfl⟩
  refine .between (hdata.bind fun x hx => ?_)
  cases x with
  | error e => exact .pure hx
  | ok data =>
    refine (newValue_maintains Store.Memoizes.ofRegistries data).bind ?_
    rintro ⟨id, data⟩ rfl
    exact .pure hx

theorem finish_maintains (success : Event) (x : Except InstantiateError (Value γ)) :
    (finish success x : Run γ σ (Resolved γ)).Maintains (first.Memoizes closures ρ) fun y =>
      y.map (Value.shape ρ) = (x.map (Value.shape ρ)).mapError .instantiate := by
  cases x with
  | ok v => exact .mark_bind (.pure rfl)
  | error e => exact .mark_bind (.pure rfl)

theorem Sound.call (hpure : closures.Pure ρ) (h : Sound closures ρ first (level closures n)) (r : Registry)
    (receiver : Option (Value γ)) (f : Function γ) :
    (call closures (level closures n) r receiver f).Maintains (first.Memoizes closures ρ) fun x =>
      Means closures ρ first (.run r (receiver.map (Value.shape ρ)) f.signature.keys (.call f.body))
        (x.map (Value.shape ρ)) := by
  refine .between ((h.resolveAll r f.signature.keys).bind fun xs hxs => ?_)
  cases xs with
  | error e => exact .pure (.unresolved hxs)
  | ok values =>
    refine (runFunction_returns hpure f ⟨receiver, values⟩).bind fun x hx => ?_
    refine (finish_maintains .invoked x).mono fun y hy => ?_
    rw [hy]
    exact .returned hxs hx

theorem Sound.construct (hpure : closures.Pure ρ) (h : Sound closures ρ first (level closures n)) (r : Registry)
    (c : Class γ) :
    (construct closures (level closures n) r c).Maintains (first.Memoizes closures ρ) fun x =>
      Means closures ρ first (.run r none c.signature.keys (.construct c.body)) (x.map (Value.shape ρ)) := by
  refine .between ((h.resolveAll r c.signature.keys).bind fun xs hxs => ?_)
  cases xs with
  | error e => exact .pure (.unresolved hxs)
  | ok values =>
    refine (runConstructor_returns hpure c ⟨none, values⟩).bind fun x hx => ?_
    refine (finish_maintains .instantiated x).mono fun y hy => ?_
    rw [hy]
    exact .returned hxs hx

/-- A provider is replaced by a value that it means. -/
theorem memoize_maintains {f : Function γ} {cached : Bool} {v : Value γ}
    (hf : first.binding? r key = some (.provider f cached))
    (hv : Means closures ρ first (.run r none f.signature.keys (.call f.body)) (.ok (v.shape ρ))) :
    (memoize r key f v : Run γ σ Unit).Maintains (first.Memoizes closures ρ) fun _ => True := by
  intro s a s' ms hs h
  by_cases hb : ∃ g cached, s.binding? r key = some (.provider g cached) ∧ g.same f = true
  · obtain ⟨g, cached', hb, hg⟩ := hb
    rw [memoize_apply hb hg] at h
    cases h
    exact ⟨hs.bind hf hv, trivial⟩
  · rw [memoize_apply_of_rebound fun g cached hg => by simpa using fun hs => hb ⟨g, cached, hg, hs⟩] at h
    cases h
    exact ⟨hs, trivial⟩

/-- An attempt at a binding of the first store gives what the binding means, cached or not. -/
theorem Sound.resolveBinding (hpure : closures.Pure ρ) (h : Sound closures ρ first (level closures n))
    {b b' : Binding γ} (hb : first.binding? r key = some b) (hb' : b'.uncached = b.uncached) :
    (resolveBinding closures (level closures n) r key b').Maintains (first.Memoizes closures ρ) fun x =>
      Means closures ρ first (.attempt r b') (x.map (Value.shape ρ)) := by
  cases b' with
  | constant v => exact .mark_bind (.pure .constant)
  | singleton v => exact .mark_bind (.pure .singleton)
  | transient c => exact (h.construct hpure r c).mono fun _ => .transient
  | provider f cached =>
    obtain ⟨cached', rfl⟩ := Binding.eq_provider_of_uncached hb'.symm
    have hprovide : (provide closures (level closures n) r key f).Maintains (first.Memoizes closures ρ) fun x =>
        Means closures ρ first (.run r none f.signature.keys (.call f.body)) (x.map (Value.shape ρ)) := by
      refine (h.call hpure r none f).bind fun x hx => ?_
      cases x with
      | error e => exact .pure hx
      | ok v => exact .mark_bind (.pure hx)
    cases cached with
    | false => exact hprovide.mono fun _ => .provider
    | true =>
      refine .between (hprovide.bind fun x hx => ?_)
      cases x with
      | error e => exact .pure (.provider hx)
      | ok v => exact (memoize_maintains hb hx).bind fun _ _ => .pure (.provider hx)

theorem Sound.searchParents (h : Sound closures ρ first low) (key : String) (ps : List Registry) :
    (searchParents low key ps).Maintains (first.Memoizes closures ρ) fun x =>
      Means closures ρ first (.parents key ps) (x.map (Except.map (Value.shape ρ))) := by
  induction ps with
  | nil => exact .pure .exhausted
  | cons p ps ih =>
    refine (h.search p key).bind fun x hx => ?_
    rcases x with _ | e | v
    · exact ih.mono fun _ => .missed hx
    · exact .mark_bind (ih.mono fun _ => .failed hx)
    · exact .mark_bind (.pure (.found hx))

theorem Sound.searchFrom (hpure : closures.Pure ρ) (h : Sound closures ρ first (level closures n)) (r : Registry)
    (key : String) :
    (searchFrom closures (level closures n) r key).Maintains (first.Memoizes closures ρ) fun x =>
      Means closures ρ first (.search r key) (x.map (Except.map (Value.shape ρ))) := by
  refine .between (.read_bind fun s hs => ?_)
  cases hb' : s.binding? r key with
  | none =>
    have hb : first.binding? r key = none := hs.binding?_eq_none_iff.1 hb'
    refine .read_bind fun s hs => ?_
    rw [hs.parents r]
    exact (h.searchParents key _).mono fun _ => .inherited hb
  | some b' =>
    rcases hs.bindings r key with heq | ⟨f, cached, v, hf, hv, hmeans⟩
    · rw [hb', Option.map_some] at heq
      obtain ⟨b, hb, hbb'⟩ := Option.map_eq_some_iff.1 heq.symm
      refine (h.resolveBinding hpure hb hbb'.symm).bind fun x hx => ?_
      exact .pure (.bound hb (hx.attempt_congr hbb'.symm))
    · -- a memoized constant answers for the provider that it replaced
      rw [hb'] at hv
      cases hv
      exact .bind (.mark_bind (.pure (Q := fun x => x = .ok v) rfl)) fun x hx =>
        .pure (hx ▸ .bound hf (.provider hmeans))

theorem Sound.resolveKey (hfirst : first.Acyclic) (h : Sound closures ρ first low) (r : Registry) (key : String) :
    (resolveKey low r key).Maintains (first.Memoizes closures ρ) fun x =>
      Means closures ρ first (.resolve r key) (x.map (Value.shape ρ)) := by
  refine .between ((h.search r key).bind fun x hx => ?_)
  cases x with
  | some x => exact .pure (.resolved hx)
  | none =>
    refine .read_bind fun s hs => ?_
    rw [hs.ancestors_eq hfirst]
    exact .mark_bind (.pure (.unregistered hx))

/-- Whatever ends within a bound has the meaning of the first store. -/
theorem level_sound (hpure : closures.Pure ρ) (hfirst : first.Acyclic) (n : Nat) :
    Sound closures ρ first (level closures n) := by
  induction n with
  | zero => exact ⟨fun _ _ => .outOfBound, fun _ _ => .outOfBound⟩
  | succ n ih => exact ⟨ih.resolveKey hfirst, ih.searchFrom hpure⟩

end Resolver

/-! ### Lookups -/

/-- What may be asked of registries without changing them by intent. -/
inductive Lookup (γ : Type)
  | get (r : Registry) (key : String)
  | getAs (r : Registry) (key : String) (t : ValueType)
  | invoke (r : Registry) (receiver : Option (Value γ)) (f : Function γ)
  | invokeValue (r : Registry) (receiver : Option (Value γ)) (target : Value γ)
  | instantiate (r : Registry) (c : Class γ)

namespace Lookup

def program : Lookup γ → Program γ σ (Resolved γ)
  | .get r key => .request (.get r key)
  | .getAs r key t => .request (.getAs r key t)
  | .invoke r receiver f => .request (.invoke r receiver f)
  | .invokeValue r receiver target => .request (.invokeValue r receiver target)
  | .instantiate r c => .request (.instantiate r c)

/-- The lookups one after the other. -/
def programs : List (Lookup γ) → Program γ σ (List (Resolved γ))
  | [] => return []
  | l :: ls => do
    let x ← l.program
    let xs ← programs ls
    return x :: xs

/-- The lookup up to the identities of the values it is given. -/
def shape (ρ : Nat → Nat) : Lookup γ → Lookup γ
  | .invoke r receiver f => .invoke r (receiver.map (Value.shape ρ)) (f.shape ρ)
  | .invokeValue r receiver target => .invokeValue r (receiver.map (Value.shape ρ)) (target.shape ρ)
  | l => l

/-- The value if it has the type that is asked for. -/
def ofType (key : String) (t : ValueType) (v : Value γ) : Resolved γ :=
  if v.type = t then .ok v else .error (.incorrectType key t v.type)

/-- A lookup of this shape has this answer in the store. -/
def Means (closures : Closures γ σ) (ρ : Nat → Nat) (s : Store γ σ) : Lookup γ → Resolved γ → Prop
  | .get r key, x => Injection.Means closures ρ s (.resolve r key) x
  | .getAs r key t, x => ∃ y, Injection.Means closures ρ s (.resolve r key) y ∧ x = y.bind (ofType key t)
  | .invoke r receiver f, x => Injection.Means closures ρ s (.run r receiver f.signature.keys (.call f.body)) x
  | .invokeValue r receiver target, x =>
    match target.data with
    | .function f => Injection.Means closures ρ s (.run r receiver f.signature.keys (.call f.body)) x
    | _ => x = .error (.notCallable target.type)
  | .instantiate r c, x => Injection.Means closures ρ s (.run r none c.signature.keys (.construct c.body)) x

theorem Means.unique (hpure : closures.Pure ρ) {l : Lookup γ} {x y : Resolved γ} (hx : l.Means closures ρ s x)
    (hy : l.Means closures ρ s y) : x = y := by
  cases l with
  | get r key => exact Injection.Means.unique hpure hx hy
  | getAs r key t =>
    obtain ⟨x', hx', rfl⟩ := hx
    obtain ⟨y', hy', rfl⟩ := hy
    rw [hx'.unique hpure hy']
  | invoke r receiver f => exact Injection.Means.unique hpure hx hy
  | invokeValue r receiver target =>
    obtain ⟨id, data⟩ := target
    cases data with
    | function f => exact Injection.Means.unique hpure hx hy
    | _ => exact hx.trans hy.symm
  | instantiate r c => exact Injection.Means.unique hpure hx hy

/-! ### Answers -/

/-- A request is answered over any bound as its rule answers. -/
private theorem request_maintains {I : Store γ σ → Prop} {q : Request γ σ} {Q : q.Answer → Prop}
    (h : ∀ n, (Resolver.performWith closures (Resolver.level closures n) q).Maintains I Q) (n : Nat) :
    ((Program.request q).runWithin closures n).Maintains I Q := by
  refine Run.Maintains.bind ?_ fun x hx => .pure hx
  cases n with
  | zero => exact .outOfBound
  | succ n => exact h n

private theorem getAs_maintains (hpure : closures.Pure ρ) (hfirst : first.Acyclic) (n : Nat) (r : Registry)
    (key : String) (t : ValueType) :
    (Resolver.getAs (Resolver.level closures n) r key t).Maintains (first.Memoizes closures ρ) fun x =>
      (getAs r key t).Means closures ρ first (x.map (Value.shape ρ)) := by
  refine (Run.Maintains.reporting ((Resolver.level_sound hpure hfirst n).resolve r key)).bind fun x hx => ?_
  cases x with
  | error e => exact .pure ⟨_, hx, rfl⟩
  | ok v =>
    refine .reporting (.pure ⟨_, hx, ?_⟩)
    change _ = ofType key t (v.shape ρ)
    unfold ofType
    rw [Value.type_shape]
    split <;> rfl

private theorem invokeValue_maintains (hpure : closures.Pure ρ) (hfirst : first.Acyclic) (n : Nat) (r : Registry)
    (receiver : Option (Value γ)) (target : Value γ) :
    (Resolver.invokeValue closures (Resolver.level closures n) r receiver target).Maintains (first.Memoizes closures ρ)
      fun x => ((invokeValue r receiver target).shape ρ).Means closures ρ first (x.map (Value.shape ρ)) := by
  obtain ⟨id, data⟩ := target
  cases data with
  | function f => exact .reporting ((Resolver.level_sound hpure hfirst n).call hpure r receiver f)
  | _ => exact .reporting (.pure rfl)

/-- A lookup is answered with what it means in the first store. -/
theorem answers (hpure : closures.Pure ρ) (hfirst : first.Acyclic) (l : Lookup γ) (n : Nat) :
    (l.program.runWithin closures n).Maintains (first.Memoizes closures ρ) fun x =>
      (l.shape ρ).Means closures ρ first (x.map (Value.shape ρ)) := by
  have hsound := Resolver.level_sound hpure hfirst
  cases l with
  | get r key =>
    refine request_maintains (q := .get r key) (fun n => ?_) n
    exact .between (.reporting ((hsound n).resolve r key))
  | getAs r key t =>
    refine request_maintains (q := .getAs r key t) (fun n => ?_) n
    exact .between (getAs_maintains hpure hfirst n r key t)
  | invoke r receiver f =>
    refine request_maintains (q := .invoke r receiver f) (fun n => ?_) n
    exact .between (.reporting ((hsound n).call hpure r receiver f))
  | invokeValue r receiver target =>
    refine request_maintains (q := .invokeValue r receiver target) (fun n => ?_) n
    exact .between (invokeValue_maintains hpure hfirst n r receiver target)
  | instantiate r c =>
    refine request_maintains (q := .instantiate r c) (fun n => ?_) n
    exact .between (.reporting ((hsound n).construct hpure r c))

/-- Each of several lookups is answered with what it means in the first store. -/
theorem answers_all (hpure : closures.Pure ρ) (hfirst : first.Acyclic) (ls : List (Lookup γ)) (n : Nat) :
    ((programs ls).runWithin closures n).Maintains (first.Memoizes closures ρ) fun xs =>
      List.Forall₂ (fun l x => (l.shape ρ).Means closures ρ first (x.map (Value.shape ρ))) ls xs := by
  induction ls with
  | nil => exact .pure .nil
  | cons l ls ih =>
    unfold programs Program.runWithin
    rw [Program.run_bind]
    refine (answers hpure hfirst l n).bind fun x hx => ?_
    rw [Program.run_bind]
    exact ih.bind fun xs hxs => .pure (.cons hx hxs)

/-- Lookups of the same shapes in the same order have answers of the same shapes. -/
theorem map_shape_eq (hpure : closures.Pure ρ) {ls ls' : List (Lookup γ)} {xs xs' : List (Resolved γ)}
    (hxs : List.Forall₂ (fun l x => (l.shape ρ).Means closures ρ first (x.map (Value.shape ρ))) ls xs)
    (hxs' : List.Forall₂ (fun l x => (l.shape ρ).Means closures ρ first (x.map (Value.shape ρ))) ls' xs')
    (h : ls.map (shape ρ) = ls'.map (shape ρ)) :
    xs.map (Except.map (Value.shape ρ)) = xs'.map (Except.map (Value.shape ρ)) := by
  induction hxs generalizing ls' xs' with
  | nil =>
    obtain rfl := List.map_eq_nil_iff.1 h.symm
    cases hxs'
    rfl
  | cons hx hxs ih =>
    cases hxs' with
    | nil => cases h
    | cons hx' hxs' =>
      obtain ⟨hl, hls⟩ := List.cons.inj h
      rw [← hl] at hx'
      rw [List.map_cons, List.map_cons, hx.unique hpure hx', ih hxs' hls]

end Lookup

end

/-- What the answers to lookups in two stores that differ in caching only have in common, whichever lookups came before.
The step-by-step part allows for lookups of values that earlier ones gave. -/
theorem caching_transparent {ρ : Nat → Nat} {closures : Closures γ σ} (hpure : closures.Pure ρ) {s s' : Store γ σ}
    (hs : s.Reachable) (h : s.SameButCaching s') {ls ls' : List (Lookup γ)} {n n' : Nat} {xs xs' : List (Resolved γ)}
    {t t' : Store γ σ} {ms ms' : Trace γ} (hrun : (Lookup.programs ls).runWithin closures n s = some (xs, t, ms))
    (hrun' : (Lookup.programs ls').runWithin closures n' s' = some (xs', t', ms')) :
    xs.length = ls.length ∧ xs'.length = ls'.length ∧
      (ls.map (Lookup.shape ρ) = ls'.map (Lookup.shape ρ) →
        xs.map (Except.map (Value.shape ρ)) = xs'.map (Except.map (Value.shape ρ))) ∧
      ∀ l x l' x', (l, x) ∈ ls.zip xs → (l', x') ∈ ls'.zip xs' → l.shape ρ = l'.shape ρ →
        x.map (Value.shape ρ) = x'.map (Value.shape ρ) := by
  obtain ⟨-, hxs⟩ := Lookup.answers_all hpure hs.acyclic ls n (.refl s) hrun
  obtain ⟨-, hxs'⟩ := Lookup.answers_all hpure hs.acyclic ls' n' (.of_sameButCaching h) hrun'
  refine ⟨hxs.length_eq.symm, hxs'.length_eq.symm, Lookup.map_shape_eq hpure hxs hxs', ?_⟩
  intro l x l' x' hx hx' hl
  have hmeans := (List.forall₂_iff_zip.1 hxs).2 hx
  have hmeans' := (List.forall₂_iff_zip.1 hxs').2 hx'
  rw [← hl] at hmeans'
  exact hmeans.unique hpure hmeans'

namespace NewEachTime

def near : Registry := ⟨0, "near"⟩

def provider : Function Unit := ⟨1, "() => 1", ⟨[]⟩, ()⟩

/-- Every function gives a new instance. -/
def closures : Closures Unit Unit where
  call _ _ := .ask (.newValue (.int 1)) fun v => .done (.ok v)
  construct _ _ := .done (.error (.custom "closed"))

def store (cached : Bool) : Store Unit Unit :=
  (Store.empty ()).bind near "k" (.provider provider cached)

theorem reachable_store (cached : Bool) : (store cached).Reachable :=
  ⟨(), .single (.bound _ near "k" _)⟩

theorem sameButCaching_store : (store true).SameButCaching (store false) := by
  constructor
  case parents =>
    intro r
    simp [store]
  case bindings =>
    intro r key
    simp only [store, Store.binding?_bind]
    split <;> rfl

theorem pure_closures (ρ : Nat → Nat) : closures.Pure ρ := by
  constructor
  case call_isLocal => exact fun _ _ => ⟨trivial, fun _ => trivial⟩
  case construct_isLocal => exact fun _ _ => trivial
  case call_agree =>
    intro body a a' _ n n' s s' x x' t t' ms ms' h h'
    cases n <;> cases h
    cases n' <;> cases h'
    rfl
  case construct_agree =>
    intro body a a' _ n n' s s' x x' t t' ms ms' h h'
    cases h
    cases h'
    rfl

def twice : List (Lookup Unit) := [.get near "k", .get near "k"]

/-- Both requests come to what the binding gives that each of them finds. -/
theorem run_twice {b b' : Binding Unit} {s s' s'' : Store Unit Unit} {x y : Resolved Unit} {ms ms' : Trace Unit}
    (hb : s.binding? near "k" = some b)
    (hx : Resolver.resolveBinding closures (Resolver.level closures 1) near "k" b s = some (x, s', ms))
    (hb' : s'.binding? near "k" = some b')
    (hy : Resolver.resolveBinding closures (Resolver.level closures 1) near "k" b' s' = some (y, s'', ms')) :
    ∃ ms'', (Lookup.programs twice).runWithin closures 4 s = some ([x, y], s'', ms'') := by
  obtain ⟨ms₁, hfirst⟩ := Resolver.perform_get_of_bound hb hx
  obtain ⟨ms₂, hsecond⟩ := Resolver.perform_get_of_bound hb' hy
  exact ⟨_, bind_eq_some.2 ⟨x, s', ms₁, [x, y], s'', _, hfirst,
    bind_eq_some.2 ⟨y, s'', ms₂, [x, y], s'', [], hsecond, rfl, rfl⟩, rfl⟩⟩

theorem binding?_store (cached : Bool) : (store cached).binding? near "k" = some (.provider provider cached) := by
  simp [store, Store.binding?_bind]

theorem call_provider (s : Store Unit Unit) : ∃ ms,
    Resolver.call closures (Resolver.level closures 1) near none provider s =
      some (.ok ⟨s.fresh, .int 1⟩, s.skip, ms) :=
  ⟨_, rfl⟩

/-- Where the provider is cached, the second request gives the first instance again. -/
theorem run_cached : ∃ t ms, (Lookup.programs twice).runWithin closures 4 (store true) =
    some ([.ok ⟨0, .int 1⟩, .ok ⟨0, .int 1⟩], t, ms) := by
  have hb : (store true).skip.binding? near "k" = some (.provider provider true) := binding?_store true
  obtain ⟨ms₁, hcall⟩ := call_provider (store true)
  have hfirst : Resolver.resolveBinding closures (Resolver.level closures 1) near "k" (.provider provider true)
      (store true) = some (.ok ⟨0, .int 1⟩, (store true).skip.bind near "k" (.constant ⟨0, .int 1⟩), _) :=
    Resolver.provideOnce_eq_some.2 (.inr ⟨_, _, _, _, hcall, memoize_apply hb rfl _, rfl, rfl⟩)
  have hkept : ((store true).skip.bind near "k" (.constant ⟨0, .int 1⟩)).binding? near "k" =
      some (.constant ⟨0, .int 1⟩) := by
    simp [Store.binding?_bind]
  obtain ⟨ms, h⟩ := run_twice (binding?_store true) hfirst hkept rfl
  exact ⟨_, ms, h⟩

/-- Where it is not, the second request gives another one. -/
theorem run_uncached : ∃ t ms, (Lookup.programs twice).runWithin closures 4 (store false) =
    some ([.ok ⟨0, .int 1⟩, .ok ⟨1, .int 1⟩], t, ms) := by
  have hget (s : Store Unit Unit) : ∃ ms, Resolver.resolveBinding closures (Resolver.level closures 1) near "k"
      (.provider provider false) s = some (.ok ⟨s.fresh, .int 1⟩, s.skip, ms) := by
    obtain ⟨ms, hcall⟩ := call_provider s
    exact ⟨_, Resolver.provide_eq_some.2 (.inr ⟨_, ms, hcall, rfl, rfl⟩)⟩
  obtain ⟨ms₁, hfirst⟩ := hget (store false)
  obtain ⟨ms₂, hsecond⟩ := hget (store false).skip
  obtain ⟨ms, h⟩ := run_twice (binding?_store false) hfirst (binding?_store false) hsecond
  exact ⟨_, ms, h⟩

/-- The answers of the two runs have the same shapes, though the instances differ. -/
theorem caching_transparent_newEachTime :
    (store true).Reachable ∧ closures.Pure id ∧ (store true).SameButCaching (store false) ∧
      (Except.ok ⟨0, .int 1⟩ : Resolved Unit).map (Value.shape id) =
        (Except.ok ⟨1, .int 1⟩ : Resolved Unit).map (Value.shape id) := by
  obtain ⟨t, ms, hrun⟩ := run_cached
  obtain ⟨t', ms', hrun'⟩ := run_uncached
  obtain ⟨-, -, hsteps, -⟩ :=
    caching_transparent (pure_closures id) (reachable_store true) sameButCaching_store hrun hrun'
  refine ⟨reachable_store true, pure_closures id, sameButCaching_store, ?_⟩
  exact (List.cons.inj (List.cons.inj (hsteps rfl)).2).1

end NewEachTime

end Injection
