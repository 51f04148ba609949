import Injection.Proofs.Resolver.Locking
import Injection.Proofs.Threads.Machine
import Mathlib.Logic.Function.Basic

/-!
# Lookups never wait for each other in a circle

Threads that look up keys at the same time share the store and the locks of its registries.  A thread that is to run a
cached provider waits as long as another one holds the lock of the registry; the one that holds it can take it again.

What a thread looks up while it holds a lock, it looks up in registries above (`Thread.Upwards`).  Every step keeps this
and lets at most one thread hold a lock (`Ordered.step`).  So a thread that waits has only locks below the one that it
waits for, and as no registry inherits from itself, no threads wait for each other in a circle:
`Reachable.locks_in_order`, which tells the same of one request without regard to steps.
-/

namespace Injection

open Run Resolver Relation

namespace Machine

variable {γ σ ι : Type}

/-! ### Threads and locks -/

namespace Thread

/-- The registry whose lock the thread takes next. -/
def awaits? : Thread γ σ → Option Registry
  | ⟨.pursue (.attempt r _ (.provider _ true)), _⟩ => some r
  | _ => none

/-- The thread holds the lock of the registry. -/
def Holds (t : Thread γ σ) (r : Registry) : Prop :=
  .lock r ∈ t.stack

/-- The thread is asked for something and has done nothing yet. -/
def asked (r : Registry) (d : Demand γ) : Thread γ σ :=
  ⟨.pursue (.meet r d), []⟩

end Thread

/-- What the task starts with is in the set. -/
def Task.Within (T : Registry → String → Prop) : Task γ σ → Prop
  | .pursue g => g.Within T
  | .inherit r key => T r key
  | .reread r key _ => T r key
  | .run _ => True
  | .give _ => True

/-- What the frame still looks up starts in the set. -/
def Frame.Within (T : Registry → String → Prop) : Frame γ → Prop
  | .parents k ps => (Goal.parents k ps : Goal γ).Within T
  | .parameters r ks => (Goal.all r ks : Goal γ).Within T
  | _ => True

/-- While the thread holds a lock, it looks up nothing but in the registry of the lock and those above it. -/
structure Thread.Upwards (s : Store γ σ) (t : Thread γ σ) : Prop where
  task : ∀ p, t.Holds p → t.task.Within (s.Chain p)
  stack : t.stack.Pairwise fun f f' => ∀ p, f' = .lock p → f.Within (s.Chain p)

namespace Thread.Upwards

variable {s : Store γ σ} {x x' : Task γ σ} {f : Frame γ} {k : List (Frame γ)}

/-- A task that stays in the registries of the one before can take its place. -/
theorem stay (h : Thread.Upwards s ⟨x, k⟩) (hx : ∀ p, x.Within (s.Chain p) → x'.Within (s.Chain p)) :
    Thread.Upwards s ⟨x', k⟩ :=
  ⟨fun p hp => hx p (h.task p hp), h.stack⟩

/-- A frame that takes no lock can be put on the stack. -/
theorem push (h : Thread.Upwards s ⟨x, k⟩) (hf : ∀ p, f ≠ .lock p)
    (hx : ∀ p, x.Within (s.Chain p) → x'.Within (s.Chain p) ∧ f.Within (s.Chain p)) :
    Thread.Upwards s ⟨x', f :: k⟩ := by
  constructor
  case task =>
    intro p hp
    rcases List.mem_cons.1 hp with hp | hp
    · exact absurd hp.symm (hf p)
    · exact (hx p (h.task p hp)).1
  case stack =>
    refine List.pairwise_cons.2 ⟨?_, h.stack⟩
    rintro f' hf' p rfl
    exact (hx p (h.task p hf')).2

/-- A lock can be taken for a task in its registry. -/
theorem take {r : Registry} (h : Thread.Upwards s ⟨x, k⟩) (hx : ∀ p, x.Within (s.Chain p) → x'.Within (s.Chain p))
    (hr : x'.Within (s.Chain r)) : Thread.Upwards s ⟨x', .lock r :: k⟩ := by
  constructor
  case task =>
    intro p hp
    rcases List.mem_cons.1 hp with hp | hp
    · cases hp
      exact hr
    · exact hx p (h.task p hp)
  case stack => exact List.pairwise_cons.2 ⟨fun _ _ _ _ => trivial, h.stack⟩

/-- A frame can be left for what it looks up. -/
theorem pop (h : Thread.Upwards s ⟨x, f :: k⟩) (hx : ∀ p, f.Within (s.Chain p) → x'.Within (s.Chain p)) :
    Thread.Upwards s ⟨x', k⟩ := by
  obtain ⟨hf, hk⟩ := List.pairwise_cons.1 h.stack
  exact ⟨fun p hp => hx p (hf _ hp p rfl), hk⟩

end Thread.Upwards

/-! ### Steps -/

variable {closures : Closures γ σ} {s s' s₀ : Store γ σ} {t t' : Thread γ σ}

/-- A lookup leaves the parents of registries as they are. -/
theorem Moves.parents (hclosures : closures.Detached) (h : Moves closures s t s' t') (r : Registry) :
    s'.parents r = s.parents r := by
  cases h with
  | run moves =>
    cases moves with
    | @ask q _ _ _ _ _ simple answer =>
      obtain ⟨n, answer⟩ := answer
      have hq : q.IsDetached := by
        cases q with
        | newRegistry | newFunction | newValue | readMemory | writeMemory => trivial
        | _ => exact simple.elim
      exact Store.parents_of_registries ((level_detached hclosures n hq).registries answer) r
    | call | construct => rfl
  | memoize memoize =>
    rcases memoize_eq_some memoize with ⟨g, cached, -, -, rfl, -⟩ | ⟨rfl, -⟩
    · exact Store.parents_bind ..
    · rfl
  | _ => rfl

theorem stack_afterRereading (r : Registry) (key : String) (f : Function γ) (k : List (Frame γ))
    (b : Option (Binding γ)) :
    (afterRereading r key f k b : Thread γ σ).stack = k ∨
      (afterRereading r key f k b : Thread γ σ).stack = .keep r key f :: k := by
  unfold afterRereading
  split
  · split
    · exact .inr rfl
    · exact .inl rfl
  · exact .inl rfl
  · exact .inl rfl

/-- A thread comes to hold a lock only by a step that takes it. -/
theorem Moves.holds (h : Moves closures s t s' t') {r : Registry} (hr : t'.Holds r) :
    t.Holds r ∨ t.awaits? = some r := by
  unfold Thread.Holds at hr ⊢
  cases h with
  | lock q =>
    rcases List.mem_cons.1 hr with hr | hr
    · cases hr
      exact .inr rfl
    · exact .inl hr
  | reread q key f k =>
    obtain hk | hk := stack_afterRereading q key f k (s.binding? q key) <;> rw [hk] at hr
    · exact .inl hr
    · exact .inl (by simpa using hr)
  | _ => first | exact .inl hr | exact .inl (List.mem_cons_of_mem _ hr) | exact .inl (by simpa using hr)

theorem Moves.upwards (h : Moves closures s t s' t') (hparents : ∀ r, s.parents r = s₀.parents r)
    (ht : t.Upwards s₀) : t'.Upwards s₀ := by
  cases h with
  | key => exact ht.push nofun fun p hp => ⟨hp, trivial⟩
  | searched => exact ht.pop fun p hp => trivial
  | other => exact ht.stay fun p hp => trivial
  | inject => exact ht.push nofun fun p hp => ⟨hp, trivial⟩
  | unresolved => exact ht.pop fun p hp => trivial
  | call => exact ht.pop fun p hp => trivial
  | run => exact ht.stay fun p hp => trivial
  | ran => exact ht.stay fun p hp => trivial
  | bound => exact ht.push nofun fun p hp => ⟨hp, trivial⟩
  | attempted => exact ht.pop fun p hp => trivial
  | unbound => exact ht.stay fun p hp => hp
  | inherit r key =>
    refine ht.stay fun p hr q hq => ?_
    rw [hparents] at hq
    exact ReflTransGen.tail hr (List.mem_reverse.1 hq)
  | exhausted => exact ht.stay fun p hp => trivial
  | parent =>
    exact ht.push nofun fun p hps => ⟨hps _ List.mem_cons_self, fun q hq => hps q (List.mem_cons_of_mem _ hq)⟩
  | found => exact ht.pop fun p hp => trivial
  | failed => exact ht.pop fun p hp => hp
  | absent => exact ht.pop fun p hp => hp
  | value => exact ht.stay fun p hp => trivial
  | transient => exact ht.stay fun p hr j _ => hr
  | provider => exact ht.stay fun p hr j _ => hr
  | lock r key f k => exact ht.take (fun p hp => hp) ReflTransGen.refl
  | reread r key f k =>
    unfold afterRereading
    split
    · split
      · exact ht.push nofun fun p hr => ⟨fun j _ => hr, trivial⟩
      · exact ht.stay fun p hr => hr
    · exact ht.stay fun p hr => hr
    · exact ht.stay fun p hr j _ => hr
  | unprovided => exact ht.pop fun p hp => trivial
  | memoize => exact ht.pop fun p hp => trivial
  | release => exact ht.pop fun p hp => trivial
  | noParameters => exact ht.stay fun p hp => trivial
  | parameter => exact ht.push nofun fun p hr => ⟨hr _ List.mem_cons_self, fun j hj => hr j (List.mem_cons_of_mem _ hj)⟩
  | stopped => exact ht.pop fun p hp => trivial
  | parameters v r keys k s =>
    have hall : Thread.Upwards s₀ ⟨.pursue (.all r keys), k⟩ := ht.pop fun p hp => hp
    exact hall.push nofun fun p hp => ⟨hp, trivial⟩
  | argument => exact ht.pop fun p hp => trivial

/-! ### All threads -/

/-- All threads share the store. -/
structure State (γ σ ι : Type) where
  store : Store γ σ
  threads : ι → Thread γ σ

/-- The first thread waits for the second: it is to take a lock that the second one holds. -/
def State.WaitsFor (T : State γ σ ι) (i j : ι) : Prop :=
  j ≠ i ∧ ∃ r, (T.threads i).awaits? = some r ∧ (T.threads j).Holds r

variable [DecidableEq ι]

/-- The thread gets there and leaves this store. -/
def State.move (T : State γ σ ι) (i : ι) (t : Thread γ σ) (s : Store γ σ) : State γ σ ι :=
  ⟨s, Function.update T.threads i t⟩

/-- The thread takes a step, which it can unless it waits, or is asked for something else when it is done; the others
stay where they are. -/
inductive Step (closures : Closures γ σ) (T : State γ σ ι) (i : ι) : State γ σ ι → Prop
  | moves {s : Store γ σ} {t : Thread γ σ} (moves : Moves closures T.store (T.threads i) s t)
    (free : ∀ j, ¬ T.WaitsFor i j) : Step closures T i (T.move i t s)
  | asked {o : Outcome γ} (done : T.threads i = ⟨.give o, []⟩) (r : Registry) (d : Demand γ) :
    Step closures T i (T.move i (.asked r d) T.store)

/-- All threads together get here from the store, each having been asked for something in the beginning. -/
inductive Runs (closures : Closures γ σ) (s : Store γ σ) : State γ σ ι → Prop
  | start (demands : ι → Registry × Demand γ) :
    Runs closures s ⟨s, fun i => .asked (demands i).1 (demands i).2⟩
  | next {T T' : State γ σ ι} {i : ι} (runs : Runs closures s T) (step : Step closures T i T') : Runs closures s T'

/-- What holds of all threads together. -/
structure Ordered (s : Store γ σ) (T : State γ σ ι) : Prop where
  parents : ∀ r, T.store.parents r = s.parents r
  upwards : ∀ i, (T.threads i).Upwards s
  exclusive : ∀ {i j r}, (T.threads i).Holds r → (T.threads j).Holds r → i = j

namespace Ordered

variable {T T' : State γ σ ι} {i j : ι}

omit [DecidableEq ι] in
theorem start (s : Store γ σ) (demands : ι → Registry × Demand γ) :
    Ordered s ⟨s, fun i => .asked (demands i).1 (demands i).2⟩ where
  parents _ := rfl
  upwards _ := ⟨fun _ hp => absurd hp List.not_mem_nil, .nil⟩
  exclusive hi := absurd hi List.not_mem_nil

/-- A step of a thread, wherever it gets, keeps what holds of all. -/
theorem move (h : Ordered s₀ T) (hparents : ∀ r, s'.parents r = T.store.parents r) (ht : t'.Upwards s₀)
    (hholds : ∀ r, t'.Holds r → ∀ j, j ≠ i → ¬ (T.threads j).Holds r) : Ordered s₀ (T.move i t' s') := by
  constructor
  case parents => exact fun r => (hparents r).trans (h.parents r)
  case upwards =>
    intro j
    by_cases hj : j = i
    · subst hj
      simpa [State.move] using ht
    · simpa [State.move, hj] using h.upwards j
  case exclusive =>
    intro j l r hjr hlr
    simp only [State.move] at hjr hlr
    by_cases hj : j = i <;> by_cases hl : l = i
    · rw [hj, hl]
    · subst hj
      rw [Function.update_self] at hjr
      rw [Function.update_of_ne hl] at hlr
      exact absurd hlr (hholds r hjr l hl)
    · subst hl
      rw [Function.update_self] at hlr
      rw [Function.update_of_ne hj] at hjr
      exact absurd hjr (hholds r hlr j hj)
    · rw [Function.update_of_ne hj] at hjr
      rw [Function.update_of_ne hl] at hlr
      exact h.exclusive hjr hlr

theorem step (hclosures : closures.Detached) (h : Ordered s₀ T) (hstep : Step closures T i T') : Ordered s₀ T' := by
  cases hstep with
  | @moves s t moves free =>
    refine h.move (moves.parents hclosures) (moves.upwards h.parents (h.upwards i)) fun r hr j hj hjr => ?_
    rcases moves.holds hr with hir | hawaits
    · exact hj (h.exclusive hjr hir)
    · exact free j ⟨hj, r, hawaits, hjr⟩
  | asked done r d =>
    exact h.move (fun _ => rfl) ⟨fun _ hp => absurd hp List.not_mem_nil, .nil⟩ fun _ hr => absurd hr List.not_mem_nil

theorem of_runs (hclosures : closures.Detached) (h : Runs closures s₀ T) : Ordered s₀ T := by
  induction h with
  | start demands => exact start s₀ demands
  | next _ hstep ih => exact ih.step hclosures hstep

omit [DecidableEq ι]

/-- The lock that a thread waits for is one of a registry above all those whose locks it holds. -/
theorem reaches (h : Ordered s₀ T) {r p : Registry} (hr : (T.threads i).awaits? = some r)
    (hp : (T.threads i).Holds p) : ReflTransGen s₀.IsParent p r := by
  have htask := (h.upwards i).task p hp
  unfold Thread.awaits? at hr
  split at hr
  · next heq =>
    cases hr
    rw [heq] at htask
    exact htask
  · cases hr

/-- Along a chain of threads that wait for each other, the locks that they wait for are those of registries further and
further up. -/
theorem reaches_of_waitsFor (h : Ordered s₀ T) (hij : TransGen T.WaitsFor i j) {r q : Registry}
    (hr : (T.threads i).awaits? = some r) (hq : (T.threads j).awaits? = some q) : ReflTransGen s₀.IsParent r q := by
  induction hij using TransGen.head_induction_on generalizing r with
  | single hij =>
    obtain ⟨-, r', hr', hheld⟩ := hij
    cases hr.symm.trans hr'
    exact h.reaches hq hheld
  | head hil hlj ih =>
    obtain ⟨-, r', hr', hheld⟩ := hil
    cases hr.symm.trans hr'
    obtain ⟨l, ⟨-, q', hq', -⟩, -⟩ := TransGen.head'_iff.1 hlj
    exact (h.reaches hq' hheld).trans (ih hq')

/-- No thread waits for itself, be it through others. -/
theorem not_waitsFor_self (h : Ordered s₀ T) (hs : s₀.Acyclic) (i : ι) : ¬ TransGen T.WaitsFor i i := by
  intro hii
  obtain ⟨j, ⟨hji, r, hr, hheld⟩, hrest⟩ := TransGen.head'_iff.1 hii
  rcases reflTransGen_iff_eq_or_transGen.1 hrest with rfl | hjtoi
  · exact hji rfl
  obtain ⟨l, ⟨hlj, q, hq, hheld'⟩, -⟩ := TransGen.head'_iff.1 hjtoi
  -- the registries are above each other, so they are the same, and then two threads hold the lock
  have hrq : ReflTransGen s₀.IsParent r q := h.reaches hq hheld
  have hqr : ReflTransGen s₀.IsParent q r := h.reaches_of_waitsFor hjtoi hq hr
  rcases reflTransGen_iff_eq_or_transGen.1 hrq with rfl | hrq
  · exact hlj (h.exclusive hheld' hheld)
  · exact hs r (hrq.trans_left hqr)

end Ordered

end Machine

/-- In which order lookups from the store on take the locks of registries. -/
structure Store.LocksInOrder {γ σ : Type} (closures : Closures γ σ) (s : Store γ σ) : Prop where
  /-- When a cached provider starts in the course of a request, each lock that is still held is the one of its registry
  or of a registry that inherits from that one. -/
  alone : ∀ {q : Request γ σ} {r : Registry} {d : Demand γ} {p : Registry} {key : String} {f : Function γ}
    {pre : Trace γ} {s₁ : Store γ σ}, q.demand? = some (r, d) →
    (Activity.request q).During closures s pre (.goal (.attempt p key (.provider f true))) s₁ →
    ∀ p', pre.Holds p' → ReflTransGen s.IsParent p' p
  /-- The same holds of each of several threads, whatever the others do in between. -/
  together : ∀ {ι : Type} [DecidableEq ι] {T : Machine.State γ σ ι}, Machine.Runs closures s T →
    ∀ i p, (T.threads i).awaits? = some p → ∀ p', (T.threads i).Holds p' → ReflTransGen s.IsParent p' p
  /-- No threads wait for each other in a circle. -/
  no_circle : ∀ {ι : Type} [DecidableEq ι] {T : Machine.State γ σ ι}, Machine.Runs closures s T →
    ∀ i, ¬ TransGen T.WaitsFor i i

/-- Where closures leave registries alone, locks are taken from descendants to ancestors, so lookups never wait for each
other in a circle. -/
theorem Store.Reachable.locks_in_order {γ σ : Type} {closures : Closures γ σ} (hclosures : closures.Detached)
    {s : Store γ σ} (hs : s.Reachable) : s.LocksInOrder closures where
  alone hq h _ hheld := Request.locks_upwards hclosures hq h hheld
  together h _ _ hawaits _ hheld := (Machine.Ordered.of_runs hclosures h).reaches hawaits hheld
  no_circle h i := (Machine.Ordered.of_runs hclosures h).not_waitsFor_self hs.acyclic i

/-! ### A thread that waits for the lock of a parent -/

namespace Ascending

open Machine

def parent : Registry := ⟨0, "parent"⟩

def child : Registry := ⟨1, "child"⟩

/-- The provider of the key `a` in the child. -/
def low : Function Unit := ⟨2, "b => b", ⟨[⟨"b", none⟩]⟩, ()⟩

/-- The provider of the key `b` in the parent. -/
def high : Function Unit := ⟨3, "() => 0", ⟨[]⟩, ()⟩

def closures : Closures Unit Unit where
  call _ _ := .ask (.newValue .unit) fun v => .done (.ok v)
  construct _ _ := .done (.ok .unit)

def store : Store Unit Unit :=
  (((Store.empty ()).addParent child parent).bind child "a" (.provider low true)).bind parent "b" (.provider high true)

theorem detached_closures : closures.Detached :=
  ⟨fun _ _ => ⟨trivial, fun _ => trivial⟩, fun _ _ => trivial⟩

theorem reachable_store : store.Reachable := by
  refine ⟨(), ReflTransGen.tail (ReflTransGen.tail (.single (.extended ?_)) (.bound ..)) (.bound ..)⟩
  rfl

theorem during : ∃ pre, (Activity.request (.get child "a")).During closures store pre
    (.goal (.attempt parent "b" (.provider high true))) store ∧ pre.Holds child := by
  have hbound : store.binding? child "a" = some (.provider low true) := rfl
  have hunbound : store.binding? child "b" = none := rfl
  have hparent : store.binding? parent "b" = some (.provider high true) := rfl
  refine ⟨_, .inside (.demand (q := .get child "a") rfl store) (.inside (.search child "a" store)
    (.inside (.bound hbound) (.inside (.provider child "a" low true store) (.inside (.inject child none _ store)
    (.inside (.parameter child "b" [] store) (.inside (.search child "b" store) (.inside (.inherited hunbound)
    (.inside (.parent "b" parent [] store) (.inside (.bound hparent) (.self _ store)))))))))), ?_⟩
  simp [Trace.Holds, Mark.locks]

/-- Of two threads one looks up the key in the child, the other in the parent. -/
def demands : Bool → Registry × Demand Unit
  | false => (child, .key "a")
  | true => (parent, .key "b")

/-- Both threads, neither of which has changed the store. -/
def both (t u : Thread Unit Unit) : State Unit Unit Bool :=
  ⟨store, fun i => bif i then u else t⟩

/-- One of the threads moves. -/
theorem runs_one {T T' : State Unit Unit Bool} (h : Runs closures store T) (i : Bool)
    (moves : Moves closures T.store (T.threads i) T'.store (T'.threads i)) (other : T'.threads (!i) = T.threads (!i))
    (free : ∀ r, (T.threads i).awaits? = some r → ¬ (T.threads (!i)).Holds r) : Runs closures store T' := by
  have hmove : T.move i (T'.threads i) T'.store = T' := by
    refine congrArg (State.mk T'.store) (funext fun j => ?_)
    by_cases hj : j = i
    · subst hj
      exact Function.update_self ..
    · cases Bool.eq_not_of_ne hj
      exact (Function.update_of_ne hj ..).trans other.symm
  rw [← hmove]
  refine .next h (.moves moves ?_)
  rintro j ⟨hne, r, hr, hheld⟩
  cases Bool.eq_not_of_ne hne
  exact free r hr hheld

theorem runs_first {t t' u : Thread Unit Unit} (h : Runs closures store (both t u))
    (moves : Moves closures store t store t') (free : ∀ r, t.awaits? = some r → ¬ u.Holds r) :
    Runs closures store (both t' u) :=
  runs_one h false moves rfl free

theorem runs_second {t u u' : Thread Unit Unit} (h : Runs closures store (both t u))
    (moves : Moves closures store u store u') (free : ∀ r, u.awaits? = some r → ¬ t.Holds r) :
    Runs closures store (both t u') :=
  runs_one h true moves rfl free

/-- The thread holds the lock of the parent. -/
def holding : Thread Unit Unit :=
  ⟨.reread parent "b" high, [.lock parent, .bound, .key parent "b"]⟩

/-- The thread holds the lock of the child and is to take the one of the parent. -/
def waiting : Thread Unit Unit :=
  ⟨.pursue (.attempt parent "b" (.provider high true)), [.bound, .parents "b" [], .key child "b", .parameters child [],
    .run none (.function low), .keep child "a" low, .lock child, .bound, .key child "a"]⟩

theorem runs_holding : Runs closures store (both (.asked child (.key "a")) holding) := by
  have hparent : store.binding? parent "b" = some (.provider high true) := rfl
  have h₀ : Runs closures store (both (.asked child (.key "a")) (.asked parent (.key "b"))) := by
    have hasked : (⟨store, fun i => .asked (demands i).1 (demands i).2⟩ : State Unit Unit Bool) =
        both (.asked child (.key "a")) (.asked parent (.key "b")) := by
      refine congrArg (State.mk store) (funext fun i => ?_)
      cases i <;> rfl
    rw [← hasked]
    exact .start demands
  have h₁ := runs_second h₀ (.key ..) nofun
  have h₂ := runs_second h₁ (.bound hparent _) nofun
  exact runs_second h₂ (.lock ..) fun r _ => List.not_mem_nil

theorem runs_waiting : Runs closures store (both waiting holding) := by
  have hbound : store.binding? child "a" = some (.provider low true) := rfl
  have hunbound : store.binding? child "b" = none := rfl
  have hparent : store.binding? parent "b" = some (.provider high true) := rfl
  have h₁ := runs_first runs_holding (.key ..) nofun
  have h₂ := runs_first h₁ (.bound hbound _) nofun
  have h₃ := runs_first h₂ (.lock ..) fun r hr => by
    cases hr
    simp [Thread.Holds, holding, child, parent]
  have h₄ := runs_first h₃ (.reread ..) nofun
  rw [hbound, afterRereading_self] at h₄
  have h₅ := runs_first h₄ (.inject ..) nofun
  have h₆ := runs_first h₅ (.parameter ..) nofun
  have h₇ := runs_first h₆ (.key ..) nofun
  have h₈ := runs_first h₇ (.unbound hunbound _) nofun
  have h₉ := runs_first h₈ (.inherit ..) nofun
  have h₁₀ := runs_first h₉ (.parent ..) nofun
  exact runs_first h₁₀ (.bound hparent _) nofun

/-- A lookup holds the lock of the child when it takes the one of the parent; if another thread has that one, it waits,
and it is not waited for in turn. -/
theorem locks_in_order_ascending :
    (∃ pre, (Activity.request (.get child "a")).During closures store pre
      (.goal (.attempt parent "b" (.provider high true))) store ∧ pre.Holds child ∧
      ReflTransGen store.IsParent child parent) ∧
    ∃ T : State Unit Unit Bool, Runs closures store T ∧ T.WaitsFor false true ∧
      (∀ p, (T.threads false).Holds p → ReflTransGen store.IsParent p parent) ∧ ¬ TransGen T.WaitsFor true true := by
  have horder : store.LocksInOrder closures := reachable_store.locks_in_order detached_closures
  obtain ⟨pre, hduring, hheld⟩ := during
  refine ⟨⟨pre, hduring, hheld, horder.alone rfl hduring child hheld⟩, both waiting holding, runs_waiting, ?_, ?_, ?_⟩
  · exact ⟨nofun, parent, rfl, List.mem_cons_self⟩
  · exact horder.together runs_waiting false parent rfl
  · exact horder.no_circle runs_waiting true

end Ascending

end Injection
