import Injection.Proofs.Threads.LockOrder
import Mathlib.Data.Fintype.Card
import Mathlib.Order.WellFounded

/-!
# Some lookup can always go on

A thread is only kept from its next step by a lock that another one holds.  For each frame takes the kind of outcome
that the task or frame above it gives (`Thread.Fits`), and every request of a detached closure is answered.  Threads
that wait for each other do so in no circle, so of finitely many threads that are not done, one can take its step:
`Runs.progress`.
-/

namespace Injection

open Run Resolver Relation

namespace Machine

variable {γ σ ι : Type}

/-! ### What the frames take and give -/

inductive Kind
  | resolved
  | searched
  | injected
  deriving DecidableEq

def Outcome.kind : Outcome γ → Kind
  | .resolved _ => .resolved
  | .searched _ => .searched
  | .injected _ => .injected

/-- What the task comes to. -/
def Task.kind : Task γ σ → Kind
  | .pursue (.meet _ _) => .resolved
  | .pursue (.search _ _) => .searched
  | .pursue (.parents _ _) => .searched
  | .pursue (.attempt _ _ _) => .resolved
  | .pursue (.all _ _) => .injected
  | .inherit _ _ => .searched
  | .reread _ _ _ => .resolved
  | .run _ => .resolved
  | .give o => o.kind

namespace Frame

def takes : Frame γ → Kind
  | .key _ _ => .searched
  | .bound => .resolved
  | .parents _ _ => .searched
  | .parameters _ _ => .resolved
  | .argument _ => .injected
  | .run _ _ => .injected
  | .lock _ => .resolved
  | .keep _ _ _ => .resolved

def gives : Frame γ → Kind
  | .key _ _ => .resolved
  | .bound => .searched
  | .parents _ _ => .searched
  | .parameters _ _ => .injected
  | .argument _ => .injected
  | .run _ _ => .resolved
  | .lock _ => .resolved
  | .keep _ _ _ => .resolved

/-- The frames take an outcome of this kind, one after the other. -/
def Fit : Kind → List (Frame γ) → Prop
  | _, [] => True
  | kind, f :: k => f.takes = kind ∧ Fit f.gives k

end Frame

/-- The stack takes what the task comes to, and the closure that is run is detached. -/
structure Thread.Fits (t : Thread γ σ) : Prop where
  stack : Frame.Fit t.task.kind t.stack
  detached : ∀ p, t.task = .run p → p.IsDetached

variable {closures : Closures γ σ} {s s' : Store γ σ} {t t' : Thread γ σ}

theorem Moves.fits (hclosures : closures.Detached) (h : Moves closures s t s' t') (ht : t.Fits) : t'.Fits := by
  obtain ⟨hstack, hdetached⟩ := ht
  cases h with
  | run moves k =>
    refine ⟨hstack, fun p hp => ?_⟩
    cases hp
    exact moves.isDetached hclosures (hdetached _ rfl)
  | call vs receiver c k s =>
    refine ⟨hstack.2, fun p hp => ?_⟩
    cases hp
    exact hclosures.program c _
  | reread r key f k s =>
    unfold afterRereading
    split
    · split
      · exact ⟨⟨rfl, hstack⟩, nofun⟩
      · exact ⟨hstack, nofun⟩
    · exact ⟨hstack, nofun⟩
    · exact ⟨hstack, nofun⟩
  | searched | unresolved | attempted | found | failed | absent | unprovided | memoize | release | stopped | argument =>
    exact ⟨hstack.2, nofun⟩
  | parameters => exact ⟨⟨rfl, hstack.2⟩, nofun⟩
  | key | inject | bound | parent | lock | parameter => exact ⟨⟨rfl, hstack⟩, nofun⟩
  | _ => exact ⟨hstack, nofun⟩

/-- The thread has come to the end of what it was asked for. -/
def Thread.Done (t : Thread γ σ) : Prop :=
  ∃ o, t = ⟨.give o, []⟩

/-- What the frame does with an outcome that it takes. -/
theorem exists_moves_of_give {o : Outcome γ} {f : Frame γ} (h : f.takes = o.kind) (k : List (Frame γ)) (s : Store γ σ) :
    ∃ s' t', Moves closures s ⟨.give o, f :: k⟩ s' t' := by
  cases f with
  | key r key =>
    cases o with
    | searched x => exact ⟨_, _, .searched x r key k s⟩
    | _ => cases h
  | bound =>
    cases o with
    | resolved a => exact ⟨_, _, .attempted a k s⟩
    | _ => cases h
  | parents key ps =>
    cases o with
    | searched x =>
      rcases x with _ | e | v
      · exact ⟨_, _, .absent key ps k s⟩
      · exact ⟨_, _, .failed e key ps k s⟩
      · exact ⟨_, _, .found v key ps k s⟩
    | _ => cases h
  | parameters r keys =>
    cases o with
    | resolved a =>
      cases a with
      | error e => exact ⟨_, _, .stopped e r keys k s⟩
      | ok v => exact ⟨_, _, .parameters v r keys k s⟩
    | _ => cases h
  | argument v =>
    cases o with
    | injected x => exact ⟨_, _, .argument x v k s⟩
    | _ => cases h
  | run receiver c =>
    cases o with
    | injected x =>
      cases x with
      | error e => exact ⟨_, _, .unresolved e receiver c k s⟩
      | ok vs => exact ⟨_, _, .call vs receiver c k s⟩
    | _ => cases h
  | lock r =>
    cases o with
    | resolved a => exact ⟨_, _, .release a r k s⟩
    | _ => cases h
  | keep r key f =>
    cases o with
    | resolved a =>
      cases a with
      | error e => exact ⟨_, _, .unprovided e r key f k s⟩
      | ok v => rcases memoize_cases r key f v s with ⟨g, cached, -, -, hm⟩ | hm <;> exact ⟨_, _, .memoize hm k⟩
    | _ => cases h

/-- What a thread does for a goal. -/
theorem exists_moves_of_pursue (g : Goal γ) (k : List (Frame γ)) (s : Store γ σ) :
    ∃ s' t', Moves closures s ⟨.pursue g, k⟩ s' t' := by
  cases g with
  | meet r d =>
    cases d with
    | key key => exact ⟨_, _, .key r key k s⟩
    | run receiver c => exact ⟨_, _, .inject r receiver c k s⟩
    | other t => exact ⟨_, _, .other r t k s⟩
  | search r key =>
    cases hb : s.binding? r key with
    | some b => exact ⟨_, _, .bound hb k⟩
    | none => exact ⟨_, _, .unbound hb k⟩
  | parents key ps =>
    cases ps with
    | nil => exact ⟨_, _, .exhausted key k s⟩
    | cons p ps => exact ⟨_, _, .parent key p ps k s⟩
  | attempt r key b =>
    cases b with
    | constant v => exact ⟨_, _, .value rfl r key k s⟩
    | singleton v => exact ⟨_, _, .value rfl r key k s⟩
    | transient c => exact ⟨_, _, .transient r key c k s⟩
    | provider f cached =>
      cases cached with
      | false => exact ⟨_, _, .provider r key f k s⟩
      | true => exact ⟨_, _, .lock r key f k s⟩
  | all r keys =>
    cases keys with
    | nil => exact ⟨_, _, .noParameters r k s⟩
    | cons key keys => exact ⟨_, _, .parameter r key keys k s⟩

theorem Thread.Fits.asked (r : Registry) (d : Demand γ) : (Thread.asked r d : Thread γ σ).Fits :=
  ⟨trivial, nofun⟩

/-- Locks apart, a thread can always go on until it is done. -/
theorem Thread.Fits.exists_moves (ht : t.Fits) (hdone : ¬ t.Done) (s : Store γ σ) :
    ∃ s' t', Moves closures s t s' t' := by
  obtain ⟨x, k⟩ := t
  cases x with
  | pursue g => exact exists_moves_of_pursue g k s
  | inherit r key => exact ⟨_, _, .inherit r key k s⟩
  | reread r key f => exact ⟨_, _, .reread r key f k s⟩
  | run p =>
    cases p with
    | done x => exact ⟨_, _, .ran x k s⟩
    | ask q next =>
      obtain ⟨s', p', hp⟩ := (ht.detached _ rfl).exists_moves s
      exact ⟨s', _, .run hp k⟩
  | give o =>
    cases k with
    | nil => exact absurd ⟨o, rfl⟩ hdone
    | cons f k => exact exists_moves_of_give ht.stack.1 k s

/-! ### All threads -/

variable [DecidableEq ι] {T : State γ σ ι}

theorem Runs.fits (hclosures : closures.Detached) (h : Runs closures s T) (i : ι) : (T.threads i).Fits := by
  induction h generalizing i with
  | start demands => exact .asked _ _
  | @next T _ j _ step ih =>
    cases step with
    | moves moves free =>
      by_cases hi : i = j
      · subst hi
        simpa [State.move] using moves.fits hclosures (ih i)
      · simpa [State.move, hi] using ih i
    | asked done r d =>
      by_cases hi : i = j
      · subst hi
        simpa [State.move] using Thread.Fits.asked r d
      · simpa [State.move, hi] using ih i

/-- As long as some of finitely many threads are not done, one of them can take a step. -/
theorem Runs.progress [Finite ι] (hclosures : closures.Detached) (hs : s.Reachable) (h : Runs closures s T) {i : ι}
    (hi : ¬ (T.threads i).Done) : ∃ j T', ¬ (T.threads j).Done ∧ Step closures T j T' := by
  have hcircle : ∀ j, ¬ TransGen T.WaitsFor j j := (Ordered.of_runs hclosures h).not_waitsFor_self hs.acyclic
  have : IsTrans ι (Function.swap (TransGen T.WaitsFor)) := ⟨fun _ _ _ hab hbc => hbc.trans hab⟩
  have : Std.Irrefl (Function.swap (TransGen T.WaitsFor)) := ⟨hcircle⟩
  have hwf := Finite.wellFounded_of_trans_of_irrefl (Function.swap (TransGen T.WaitsFor))
  -- of the threads that are not done, one waits for no other
  obtain ⟨j, hj, hlast⟩ := hwf.has_min {j | ¬ (T.threads j).Done} ⟨i, hi⟩
  have hfree (l : ι) : ¬ T.WaitsFor j l := by
    rintro hjl
    refine hlast l ?_ (.single hjl)
    rintro ⟨o, ho⟩
    obtain ⟨-, r, -, hheld⟩ := hjl
    rw [ho] at hheld
    exact List.not_mem_nil hheld
  obtain ⟨s', t', hmoves⟩ := (h.fits hclosures j).exists_moves hj T.store
  exact ⟨j, _, hj, .moves hmoves hfree⟩

end Machine

end Injection
