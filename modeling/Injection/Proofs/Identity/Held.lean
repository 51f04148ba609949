import Injection.Proofs.Resolver.Nesting
import Mathlib.Data.Set.Basic
import Mathlib.Logic.Relation

/-!
# Where instances are held

An instance is held by a binding, as an argument or receiver, by what closures remember or have captured, or inside of
another instance.  What a closure has captured and what closures remember is part of an application, so it is a
parameter here (`Holdings`).

Instances cannot be made up.  A program has those it was given to begin with, those it gets as answers, and what is
inside of them, and everything that it puts into a request or gives as its result is one of these (`Program.Uses`).
Closures that do so are honest (`Closures.Honest`).
-/

namespace Injection

open Relation

variable {γ σ α β ε : Type}

/-- Where an application holds instances: what closures have captured, and what they remember. -/
structure Holdings (γ σ : Type) where
  captured : γ → Set (Value γ)
  remembered : σ → Set (Value γ)

/-- The instances that a closure is run with. -/
def Arguments.instances (a : Arguments γ) : Set (Value γ) :=
  {v | a.receiver = some v ∨ v ∈ a.values}

/-- The instance that a run gives, if it gives one. -/
def valueIn (x : Except ε (Value γ)) : Set (Value γ) :=
  {v | x = .ok v}

def Goal.valuesOf : (g : Goal γ) → g.Answer → Set (Value γ)
  | .meet _ _, x => valueIn x
  | .search _ _, x => {v | x = some (.ok v)}
  | .parents _ _, x => {v | x = some (.ok v)}
  | .attempt _ _ _, x => valueIn x
  | .all _ _, x => {v | ∃ vs, x = .ok vs ∧ v ∈ vs}

namespace Holdings

variable (H : Holdings γ σ)

/-! ### What is held -/

/-- The instances that stand in the data itself. -/
def data : Data γ (Value γ) → Set (Value γ)
  | .list vs | .object _ vs => {v | v ∈ vs}
  | .function f => H.captured f.body
  | .constructible c => H.captured c.body
  | _ => ∅

/-- The instances of the set, with those inside of them. -/
def within (S : Set (Value γ)) : Set (Value γ) :=
  {v | ∃ w ∈ S, ReflTransGen (fun w v : Value γ => v ∈ H.data w.data) w v}

/-- The instances in the data that a constructor gives. -/
def product (x : Except ε (Data γ (Value γ))) : Set (Value γ) :=
  {v | ∃ d, x = .ok d ∧ v ∈ H.data d}

def callee : Callee γ → Set (Value γ)
  | .function f => H.captured f.body
  | .constructible c => H.captured c.body

def binding : Binding γ → Set (Value γ)
  | .constant v | .singleton v => {v}
  | .transient c => H.captured c.body
  | .provider f _ => H.captured f.body

def bindingOf (b : Option (Binding γ)) : Set (Value γ) :=
  {v | ∃ b', b = some b' ∧ v ∈ H.binding b'}

/-- The instances that registries and the memory of closures hold. -/
def store (s : Store γ σ) : Set (Value γ) :=
  {v | ∃ r key, v ∈ H.bindingOf (s.binding? r key)} ∪ H.remembered s.memory

def request : Request γ σ → Set (Value γ)
  | .newFunction _ body => H.captured body
  | .newValue d => H.data d
  | .writeMemory m => H.remembered m
  | .bind _ _ b => H.binding b
  | .invoke _ receiver f => {v | receiver = some v} ∪ H.captured f.body
  | .invokeValue _ receiver target => {v | receiver = some v} ∪ {target}
  | .instantiate _ c | .singleton _ _ c => H.captured c.body
  | .register _ _ f => H.captured f.body
  | .call f a => H.captured f.body ∪ a.instances
  | .construct c a => H.captured c.body ∪ a.instances
  | _ => ∅

def answer : (q : Request γ σ) → q.Answer → Set (Value γ)
  | .newFunction _ _, f => H.captured f.body
  | .newValue _, v => {v}
  | .readMemory, m => H.remembered m
  | .bind _ _ _, old | .unbind _ _, old => H.bindingOf old
  | .get _ _, x => valueIn x
  | .getAs _ _ _, x => valueIn x
  | .invoke _ _ _, x => valueIn x
  | .invokeValue _ _ _, x => valueIn x
  | .instantiate _ _, x => valueIn x
  | .call _ _, x => valueIn x
  | .construct _ _, x => valueIn x
  | .getInThreads _ _ _, xs => {v | .ok v ∈ xs}
  | _, _ => ∅

def demand : Demand γ → Set (Value γ)
  | .run receiver c => {v | receiver = some v} ∪ H.callee c
  | _ => ∅

def goal : Goal γ → Set (Value γ)
  | .meet _ d => H.demand d
  | .attempt _ _ b => H.binding b
  | _ => ∅

/-- The instances that an activity is begun with. -/
def activity : Activity γ σ → Set (Value γ)
  | .request q => H.request q
  | .goal g => H.goal g
  | .run c a => H.callee c ∪ a.instances

/-- The instances that an activity ends with. -/
def outcome : (x : Activity γ σ) → x.Answer → Set (Value γ)
  | .request q, a => H.answer q a
  | .goal g, a => g.valuesOf a
  | .run _ _, x => valueIn x

def change : Change γ → Set (Value γ)
  | .bound _ _ b => H.binding b
  | .memoized _ _ v => {v}
  | _ => ∅

def mark : Mark γ → Set (Value γ)
  | .searched _ _ x => {v | x = some (.ok v)}
  | .called c a => H.callee c ∪ a.instances
  | .returned c x => H.callee c ∪ valueIn x
  | .provided _ _ f v => H.captured f.body ∪ {v}
  | .changed c => H.change c
  | _ => ∅

/-- The instances that a trace tells of. -/
def trace (ms : Trace γ) : Set (Value γ) :=
  {v | ∃ m ∈ ms, v ∈ H.mark m}

end Holdings

/-! ### Programs that make up no instances -/

/-- The program uses no instances but those in the set, those it gets as answers, and what is inside of them. -/
def Program.Uses (H : Holdings γ σ) (gives : α → Set (Value γ)) : Program γ σ α → Set (Value γ) → Prop
  | .done a, K => gives a ⊆ H.within K
  | .ask q next, K => H.request q ⊆ H.within K ∧ ∀ x, (next x).Uses H gives (K ∪ H.answer q x)

/-- Closures use no instances but those they have captured, those they are run with, and those they get as answers. -/
structure Closures.Honest (closures : Closures γ σ) (H : Holdings γ σ) : Prop where
  call : ∀ code a, (closures.call code a).Uses H valueIn (H.captured code ∪ a.instances)
  construct : ∀ code a, (closures.construct code a).Uses H H.product (H.captured code ∪ a.instances)

/-! ### Instances that are older than others -/

namespace Holdings

variable {H : Holdings γ σ} {S T : Set (Value γ)} {n m : Nat}

theorem subset_within (S : Set (Value γ)) : S ⊆ H.within S :=
  fun v hv => ⟨v, hv, .refl⟩

theorem subset_within_left : S ⊆ H.within (S ∪ T) :=
  Set.subset_union_left.trans (subset_within _)

theorem subset_within_right : T ⊆ H.within (S ∪ T) :=
  Set.subset_union_right.trans (subset_within _)

theorem within_mono (h : S ⊆ H.within T) : H.within S ⊆ H.within T := by
  rintro v ⟨w, hw, hv⟩
  obtain ⟨u, hu, huw⟩ := h hw
  exact ⟨u, hu, huw.trans hv⟩

theorem data_subset_within {v : Value γ} (hv : v ∈ H.within S) : H.data v.data ⊆ H.within S := by
  intro u hu
  obtain ⟨w, hw, hpath⟩ := hv
  exact ⟨w, hw, hpath.tail hu⟩

/-- Every instance in the set or inside of one in the set has an identity below the bound. -/
def Older (H : Holdings γ σ) (n : Nat) (S : Set (Value γ)) : Prop :=
  ∀ v ∈ H.within S, v.id < n

theorem Older.le (h : H.Older n S) (hnm : n ≤ m) : H.Older m S :=
  fun v hv => Nat.lt_of_lt_of_le (h v hv) hnm

theorem Older.of_within (h : H.Older n T) (hST : S ⊆ H.within T) : H.Older n S :=
  fun v hv => h v (within_mono hST hv)

theorem Older.subset (h : H.Older n T) (hST : S ⊆ T) : H.Older n S :=
  h.of_within (hST.trans (subset_within T))

theorem Older.empty (n : Nat) : H.Older n ∅ := by
  rintro v ⟨w, hw, -⟩
  exact hw.elim

theorem Older.union (hS : H.Older n S) (hT : H.Older n T) : H.Older n (S ∪ T) := by
  rintro v ⟨w, hw | hw, hv⟩
  · exact hS v ⟨w, hw, hv⟩
  · exact hT v ⟨w, hw, hv⟩

/-- An instance is older than a bound if its identity and the instances in its data are. -/
theorem Older.singleton {v : Value γ} (hid : v.id < n) (hdata : H.Older n (H.data v.data)) : H.Older n {v} := by
  rintro u ⟨w, rfl, hu⟩
  rcases ReflTransGen.cases_head hu with rfl | ⟨w', hw', hu⟩
  · exact hid
  · exact hdata u ⟨w', hw', hu⟩

/-- Instances that are older than an instance are different from it. -/
theorem Older.same_eq_false {v w : Value γ} (h : H.Older v.id S) (hw : w ∈ H.within S) : w.same v = false := by
  have hlt := h w hw
  simpa [Value.same] using Nat.ne_of_lt hlt

theorem trace_append (ms ms' : Trace γ) : H.trace (ms ++ ms') = H.trace ms ∪ H.trace ms' := by
  ext v
  simp only [trace, Set.mem_ofPred_eq, Set.mem_union, List.mem_append, or_and_right, exists_or]

theorem trace_singleton (m : Mark γ) : H.trace [m] = H.mark m := by
  ext v
  simp [trace]

end Holdings

/-! ### Programs of several parts -/

open Holdings

namespace Program.Uses

variable {H : Holdings γ σ} {K K' : Set (Value γ)} {gives : α → Set (Value γ)} {p : Program γ σ α}

theorem mono (h : p.Uses H gives K) (hK : K ⊆ H.within K') : p.Uses H gives K' := by
  induction p generalizing K K' with
  | done a => exact Set.Subset.trans h (within_mono hK)
  | ask q next ih =>
    refine ⟨h.1.trans (within_mono hK), fun x => ih x (h.2 x) ?_⟩
    rintro v (hv | hv)
    · exact within_mono subset_within_left (hK hv)
    · exact subset_within _ (.inr hv)

theorem weaken {gives' : α → Set (Value γ)} (h : p.Uses H gives K) (hgives : ∀ a, gives' a ⊆ gives a) :
    p.Uses H gives' K := by
  induction p generalizing K with
  | done a => exact (hgives a).trans h
  | ask q next ih => exact ⟨h.1, fun x => ih x (h.2 x)⟩

theorem bind {gives' : β → Set (Value γ)} {f : α → Program γ σ β} (hp : p.Uses H gives K)
    (hf : ∀ a, (f a).Uses H gives' (K ∪ gives a)) : (p >>= f).Uses H gives' K := by
  induction p generalizing K with
  | done a =>
    refine (hf a).mono ?_
    rintro v (hv | hv)
    · exact subset_within _ hv
    · exact hp hv
  | ask q next ih =>
    refine ⟨hp.1, fun x => ih x (hp.2 x) fun a => (hf a).mono ?_⟩
    exact (Set.union_subset_union_left _ Set.subset_union_left).trans (subset_within _)

theorem request {q : Request γ σ} (h : H.request q ⊆ H.within K) : (Program.request q).Uses H (H.answer q) K :=
  ⟨h, fun _ => subset_within_right⟩

end Program.Uses

end Injection
