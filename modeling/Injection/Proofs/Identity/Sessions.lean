import Injection.Proofs.Identity.Aging
import Injection.Session.Run

/-!
# Sessions make up no instances

The closures of a session have captured nothing: what they use they find among their arguments, in the tables of the
session or in the reports of operations, or they make it.  So they are honest (`Session.honest_closures`), and
operations use nothing else either (`Session.Operation.script_uses`).  Whatever a session does, all that it holds stays
older than the next identity (`Session.Reached.older`).
-/

namespace Injection

open Holdings

variable {γ σ α β ε ε' : Type}

/-! ### Programs that may fail -/

/-- The program uses no instances but those in the set and those it gets, and gives these unless it fails. -/
def Yields (H : Holdings γ σ) (p : ExceptT ε (Program γ σ) α) (gives : α → Set (Value γ)) (K : Set (Value γ)) : Prop :=
  p.run.Uses H (fun x => {v | ∃ a, x = .ok a ∧ v ∈ gives a}) K

namespace Yields

variable {H : Holdings γ σ} {K : Set (Value γ)} {gives : α → Set (Value γ)} {gives' : β → Set (Value γ)}
  {p : ExceptT ε (Program γ σ) α} {f : α → ExceptT ε (Program γ σ) β}

theorem mk {x : Except ε α} (h : ∀ a, x = .ok a → gives a ⊆ H.within K) :
    Yields H (ExceptT.mk (Pure.pure x) : ExceptT ε (Program γ σ) α) gives K := by
  rintro v ⟨a, heq, hv⟩
  exact h a heq hv

theorem pure {a : α} (h : gives a ⊆ H.within K) : Yields H (Pure.pure a : ExceptT ε (Program γ σ) α) gives K :=
  mk fun b heq => by
    cases heq
    exact h

theorem throw (e : ε) : Yields H (MonadExcept.throw e : ExceptT ε (Program γ σ) α) gives K :=
  mk fun _ heq => by cases heq

theorem bind (hp : Yields H p gives K) (hf : ∀ a, Yields H (f a) gives' (K ∪ gives a)) :
    Yields H (p >>= f) gives' K := by
  refine Program.Uses.bind (f := ExceptT.bindCont f) hp fun x => ?_
  cases x with
  | error e => exact throw e
  | ok a =>
    refine (hf a).mono ?_
    rintro v (hv | hv)
    · exact subset_within _ (.inl hv)
    · exact subset_within _ (.inr ⟨a, rfl, hv⟩)

theorem lift {q : Program γ σ α} (h : q.Uses H gives K) : Yields H (liftM q : ExceptT ε (Program γ σ) α) gives K := by
  refine Program.Uses.bind h fun a => ?_
  rintro v ⟨b, heq, hv⟩
  cases heq
  exact subset_within _ (.inr hv)

theorem adapt (g : ε → ε') (hp : Yields H p gives K) : Yields H (ExceptT.adapt g p) gives K := by
  refine Program.Uses.bind hp fun x => ?_
  rintro v ⟨a, heq, hv⟩
  cases x with
  | error e => cases heq
  | ok b =>
    cases heq
    exact subset_within _ (.inr ⟨a, rfl, hv⟩)

end Yields

namespace Session

open Script

variable {K : Set Instance} {m : Memory}

/-! ### What a session holds -/

def Outcome.instances : Outcome → Set Instance
  | .value v => {v}
  | .binding b => {v | ∃ b', b = some b' ∧ b'.value? = some v}
  | .threads xs => {v | .ok v ∈ xs}
  | _ => ∅

def Report.instances (x : Report) : Set Instance :=
  {v | ∃ o, x = .ok o ∧ v ∈ Outcome.instances o}

/-- Nothing is captured; the table of values and the reports of finished operations hold instances. -/
def holdings : Holdings Body Memory where
  captured _ := ∅
  remembered m := {v | ∃ name, m.values.find? name = some v} ∪ {v | ∃ x ∈ m.finished, v ∈ Report.instances x}

theorem binding_eq (b : Binding Body) : holdings.binding b = {v | b.value? = some v} := by
  ext v
  cases b with
  | constant w | singleton w =>
    exact ⟨fun h => congrArg some (show v = w from h).symm, fun h => (Option.some.inj h).symm⟩
  | transient | provider => exact ⟨fun h => h.elim, fun h => by cases h⟩

theorem bindingOf_eq (b : Option (Binding Body)) : holdings.bindingOf b = (Outcome.binding b).instances := by
  ext v
  simp [Holdings.bindingOf, Outcome.instances, binding_eq]

theorem remembered_insert (target : String) (v : Instance) :
    holdings.remembered { m with values := m.values.insert target v } ⊆ {v} ∪ holdings.remembered m := by
  rintro w (⟨name, hw⟩ | hw)
  · rw [Table.find?_insert] at hw
    split at hw
    · cases hw
      exact .inl rfl
    · exact .inr (.inl ⟨name, hw⟩)
  · exact .inr (.inr hw)

theorem remembered_addReport (x : Report) :
    holdings.remembered (m.addReport x) ⊆ Report.instances x ∪ holdings.remembered m := by
  rintro w (hw | ⟨y, hy, hw⟩)
  · exact .inr (.inl hw)
  · rcases List.mem_append.1 hy with hy | hy
    · exact .inr (.inr ⟨y, hy, hw⟩)
    · cases List.mem_singleton.1 hy
      exact .inl hw

/-! ### Scripts -/

theorem memory_uses : Script.memory.Uses holdings holdings.remembered K :=
  .request (Set.empty_subset _)

theorem modify_uses {f : Memory → Memory}
    (hf : ∀ m, holdings.remembered (f m) ⊆ holdings.within (K ∪ holdings.remembered m)) :
    (Script.modify f).Uses holdings (fun _ => ∅) K :=
  .bind memory_uses fun m => .request (hf m)

theorem tick_uses (counter : String) : (Script.tick counter).Uses holdings (fun _ => ∅) K :=
  .bind memory_uses fun _ => .bind (.request subset_within_right) fun _ => Set.empty_subset _

theorem newInstance_uses {d : Data Body Instance} (hd : holdings.data d ⊆ holdings.within K) :
    (newInstance d).Uses holdings (fun v => {v}) K :=
  .request hd

theorem storeValue_uses (target : String) {v : Instance} (hv : {v} ⊆ K) :
    (Script.modify fun m => { m with values := m.values.insert target v }).Uses holdings (fun _ => ∅) K :=
  modify_uses fun _ => (remembered_insert target v).trans ((Set.union_subset_union_left _ hv).trans (subset_within _))

/-- What is not changed by a modification is still remembered. -/
theorem keep {f : Memory → Memory} (hf : ∀ m, holdings.remembered (f m) = holdings.remembered m) (m : Memory) :
    holdings.remembered (f m) ⊆ holdings.within (K ∪ holdings.remembered m) :=
  (hf m).subset.trans subset_within_right

theorem entry_yields {α : Type} {table : Memory → Table String α} {gives : α → Set Instance} (name : String)
    (h : ∀ m a, (table m).find? name = some a → gives a ⊆ holdings.remembered m) :
    Yields holdings (entry table name) gives K := by
  refine .bind (.lift memory_uses) fun m => ?_
  cases hfind : (table m).find? name with
  | none => exact .throw _
  | some a => exact .pure ((h m a hfind).trans subset_within_right)

theorem registry_yields (name : String) : Yields holdings (registry name) (fun _ => ∅) K :=
  entry_yields name fun _ _ _ => Set.empty_subset _

theorem function_yields (name : String) : Yields holdings (Session.function name) (fun _ => ∅) K :=
  entry_yields name fun _ _ _ => Set.empty_subset _

theorem constructible_yields (name : String) : Yields holdings (constructible name) (fun _ => ∅) K :=
  entry_yields name fun _ _ _ => Set.empty_subset _

/-! ### Values -/

private theorem new_yields {d : Data Body Instance} (hd : holdings.data d ⊆ holdings.within K) :
    Yields holdings (liftM (newInstance d) : Action Instance) (fun v => {v}) K :=
  .lift (newInstance_uses hd)

mutual

theorem make_yields {K : Set Instance} : ∀ x : Spec, Yields holdings x.make (fun v => {v}) K
  | .int _ | .byte _ | .bool _ | .unit | .string _ | .str _ => new_yields (Set.empty_subset _)
  | .list elements => .bind (makeAll_yields elements) fun vs => new_yields subset_within_right
  | .function name => .bind (function_yields name) fun f => new_yields (Set.empty_subset _)
  | .constructible name => .bind (constructible_yields name) fun c => new_yields (Set.empty_subset _)
  | .registry name => .bind (registry_yields name) fun r => new_yields (Set.empty_subset _)
  | .object _ fields => .bind (makeAll_yields fields) fun vs => new_yields subset_within_right
  | .stored name => entry_yields name fun m v h => by
    rintro w rfl
    exact .inl ⟨name, h⟩

theorem makeAll_yields {K : Set Instance} :
    ∀ xs : List Spec, Yields holdings (Spec.makeAll xs) (fun vs => {v | v ∈ vs}) K
  | [] => .pure (by simp)
  | x :: xs => by
    refine .bind (make_yields x) fun v => .bind (makeAll_yields xs) fun vs => .pure ?_
    intro w hw
    refine subset_within _ ?_
    rcases List.mem_cons.1 hw with rfl | hw
    · exact .inl (.inr rfl)
    · exact .inr hw

end

theorem binding_yields (b : BindingSpec) : Yields holdings b.make holdings.binding K := by
  have hheld (S : Set Instance) : S ⊆ holdings.within (K ∪ S) := subset_within_right
  cases b with
  | constant value => exact .bind (make_yields value) fun v => .pure (hheld _)
  | singleton value => exact .bind (make_yields value) fun v => .pure (hheld _)
  | transient name => exact .bind (constructible_yields name) fun c => .pure (Set.empty_subset _)
  | provider name cached => exact .bind (function_yields name) fun f => .pure (Set.empty_subset _)

theorem mapM_yields (receiver : Option Spec) :
    Yields holdings (receiver.mapM Spec.make) (fun o => {v | o = some v}) K := by
  cases receiver with
  | none => exact .pure (by simp)
  | some x =>
    refine .bind (make_yields x) fun v => .pure ?_
    intro w hw
    cases hw
    exact subset_within _ (.inr rfl)

/-! ### Operations -/

theorem refusable_yields {ε α : Type} {failure : ε → Failure} {outcome : α → Outcome} {p : Script (Except ε α)}
    (hp : p.Uses holdings (fun x => {v | ∃ a, x = .ok a ∧ v ∈ (outcome a).instances}) K) :
    Yields holdings (refusable failure outcome p) Outcome.instances K := by
  refine .bind (.lift hp) fun x => ?_
  cases x with
  | error e => exact .throw _
  | ok a => exact .pure fun v hv => subset_within _ (.inr ⟨a, rfl, hv⟩)

/-- A request that gives an instance is reported with it. -/
private theorem reported {ε : Type} (failure : ε → Failure) {p : Script (Except ε Instance)}
    (hp : p.Uses holdings valueIn K) : Yields holdings (refusable failure .value p) Outcome.instances K := by
  refine refusable_yields (hp.weaken fun x => ?_)
  rintro v ⟨w, rfl, rfl⟩
  rfl

theorem bindTo_yields (reg key : String) {b : Action (Binding Body)}
    (hb : ∀ {K : Set Instance}, Yields holdings b holdings.binding K) :
    Yields holdings (bindTo reg key b) holdings.bindingOf K :=
  .bind (registry_yields reg) fun _ => .bind hb fun _ =>
    .lift (.request subset_within_right)

theorem inspect_yields (subject : Subject) : Yields holdings subject.inspect (fun _ => ∅) K := by
  cases subject with
  | function name => exact .bind (function_yields name) fun _ => .pure (Set.empty_subset _)
  | constructible name => exact .bind (constructible_yields name) fun _ => .pure (Set.empty_subset _)
  | binding b => exact .bind (binding_yields b) fun _ => .pure (Set.empty_subset _)
  | value v => exact .bind (make_yields v) fun _ => .pure (Set.empty_subset _)

theorem Operation.action_yields (o : Operation) : Yields holdings o.action Outcome.instances K := by
  have told {S : Set Instance} {o : Outcome} (ho : o.instances = ∅) :
      Yields holdings (pure o : Action Outcome) Outcome.instances S := .pure (ho ▸ Set.empty_subset _)
  cases o with
  | newRegistry target label =>
    exact .bind (.lift (.request (Set.empty_subset _))) fun _ =>
      .bind (.lift (modify_uses (keep fun _ => rfl))) fun _ => told rfl
  | clone reg target =>
    exact .bind (registry_yields reg) fun r => .bind (.lift (modify_uses (keep fun _ => rfl))) fun _ => told rfl
  | newValue target value =>
    exact .bind (make_yields value) fun v => .bind (.lift (storeValue_uses target Set.subset_union_right)) fun _ =>
      .pure ((Set.subset_union_right.trans Set.subset_union_left).trans (subset_within _))
  | newFunction target source body =>
    exact .bind (.lift (.request (Set.empty_subset _))) fun _ =>
      .bind (.lift (modify_uses (keep fun _ => rfl))) fun _ => told rfl
  | newClass target source makes steps =>
    exact .bind (.lift (modify_uses (keep fun _ => rfl))) fun _ => told rfl
  | bind reg key b =>
    refine .bind (bindTo_yields reg key (binding_yields b)) fun old => .pure ?_
    rw [← bindingOf_eq]
    exact subset_within_right
  | has reg key =>
    exact .bind (registry_yields reg) fun r => .bind (.lift (.request (Set.empty_subset _))) fun _ => told rfl
  | unbind reg key =>
    refine .bind (registry_yields reg) fun r => .bind (.lift (.request (Set.empty_subset _))) fun old => .pure ?_
    rw [← bindingOf_eq]
    exact subset_within_right
  | constant reg key value =>
    exact .bind (bindTo_yields reg key (binding_yields (.constant value))) fun _ => told rfl
  | singleton reg key cls =>
    refine .bind (registry_yields reg) fun r => .bind (constructible_yields cls) fun c =>
      refusable_yields (.weaken (.request (Set.empty_subset _)) fun x => ?_)
    rintro v ⟨a, -, hv⟩
    exact hv.elim
  | transient reg key cls =>
    exact .bind (bindTo_yields reg key (binding_yields (.transient cls))) fun _ => told rfl
  | provider reg key fn cached =>
    exact .bind (bindTo_yields reg key (binding_yields (.provider fn cached))) fun _ => told rfl
  | register reg key fn =>
    refine .bind (registry_yields reg) fun r => .bind (function_yields fn) fun f =>
      refusable_yields (.weaken (.request (Set.empty_subset _)) fun x => ?_)
    rintro v ⟨a, -, hv⟩
    exact hv.elim
  | extend reg parent =>
    refine .bind (registry_yields reg) fun r => .bind (registry_yields parent) fun p =>
      refusable_yields (.weaken (.request (Set.empty_subset _)) fun x => ?_)
    rintro v ⟨a, -, hv⟩
    exact hv.elim
  | parents reg =>
    exact .bind (registry_yields reg) fun r => .bind (.lift (.request (Set.empty_subset _))) fun _ => told rfl
  | name reg => exact .bind (registry_yields reg) fun r => told rfl
  | sameRegistry reg other =>
    exact .bind (registry_yields reg) fun r => .bind (registry_yields other) fun _ => told rfl
  | sameFunction fn other =>
    exact .bind (function_yields fn) fun f => .bind (function_yields other) fun _ => told rfl
  | sameValue value other =>
    exact .bind (make_yields value) fun v => .bind (make_yields other) fun w => told rfl
  | get reg key target =>
    refine .bind (registry_yields reg) fun r => .bind (.lift (.request (Set.empty_subset _))) fun x => ?_
    cases x with
    | error e => exact .throw _
    | ok v =>
      cases target with
      | none =>
        exact .bind (.pure (Set.empty_subset _)) fun _ => .pure
          ((Set.Subset.trans (by rintro w rfl; exact .inr rfl) Set.subset_union_left).trans (subset_within _))
      | some name =>
        exact .bind (.lift (storeValue_uses name (by rintro w rfl; exact .inr rfl))) fun _ => .pure
          ((Set.Subset.trans (by rintro w rfl; exact .inr rfl) Set.subset_union_left).trans (subset_within _))
  | getAs reg key t => exact .bind (registry_yields reg) fun r => reported _ (.request (Set.empty_subset _))
  | invoke reg fn receiver =>
    exact .bind (registry_yields reg) fun r => .bind (function_yields fn) fun f => .bind (mapM_yields receiver) fun v =>
      reported _ (.request (Set.union_subset subset_within_right (Set.empty_subset _)))
  | invokeValue reg callee receiver =>
    refine .bind (registry_yields reg) fun r => .bind (make_yields callee) fun target =>
      .bind (mapM_yields receiver) fun v => reported _ (.request (Set.union_subset ?_ ?_))
    · exact subset_within_right
    · exact (Set.subset_union_right.trans Set.subset_union_left).trans (subset_within _)
  | instantiate reg cls =>
    exact .bind (registry_yields reg) fun r => .bind (constructible_yields cls) fun c =>
      reported _ (.request (Set.empty_subset _))
  | call fn args receiver =>
    refine .bind (function_yields fn) fun f => .bind (makeAll_yields args) fun values =>
      .bind (mapM_yields receiver) fun v => reported _ (.request (Set.union_subset (Set.empty_subset _) ?_))
    rintro w (hw | hw)
    · exact subset_within _ (.inr hw)
    · exact subset_within _ (.inl (.inr hw))
  | construct cls args =>
    refine .bind (constructible_yields cls) fun c => .bind (makeAll_yields args) fun values =>
      reported _ (.request (Set.union_subset (Set.empty_subset _) ?_))
    rintro w (hw | hw)
    · cases hw
    · exact subset_within _ (.inr hw)
  | functionSource fn => exact .bind (function_yields fn) fun _ => told rfl
  | classSource cls => exact .bind (constructible_yields cls) fun _ => told rfl
  | hasType value t => exact .bind (make_yields value) fun _ => told rfl
  | typeNames value => exact .bind (make_yields value) fun _ => told rfl
  | sameType t other => exact told rfl
  | inspect subject => exact .bind (inspect_yields subject) fun _ => told rfl
  | counter c => exact .bind (.lift memory_uses) fun _ => told rfl
  | getInThreads reg key threads =>
    refine .bind (registry_yields reg) fun r => .bind (.lift memory_uses) fun before =>
      .bind (.lift (.request (Set.empty_subset _))) fun results => .bind (.lift (modify_uses fun m => ?_)) fun _ =>
        .pure ((Set.subset_union_right.trans Set.subset_union_left).trans (subset_within _))
    -- the reports of the threads are forgotten
    rintro w (hw | hw)
    · exact subset_within _ (.inr (.inl hw))
    · exact subset_within _ (.inl (.inl (.inr (.inr hw))))

theorem Operation.script_uses (o : Operation) : o.script.Uses holdings Report.instances K :=
  o.action_yields

/-! ### Closures -/

theorem Operation.inside_uses (o : Operation) : o.inside.Uses holdings Report.instances K := by
  refine .bind o.script_uses fun x => .bind (modify_uses fun m => (remembered_addReport x).trans ?_) fun _ => ?_
  · exact (Set.union_subset_union_left _ Set.subset_union_right).trans (subset_within _)
  · exact (Set.subset_union_right.trans Set.subset_union_left).trans (subset_within _)

private theorem ran (o : Operation) :
    Yields holdings (liftM o.inside : Closure Report) (fun _ => ∅) K :=
  .lift (o.inside_uses.weaken fun _ => Set.empty_subset _)

theorem Step.perform_yields (a : Arguments Body) (s : Step) : Yields holdings (s.perform a) (fun _ => ∅) K := by
  have nothing {K : Set Instance} : Yields holdings (pure () : Closure Unit) (fun _ => ∅) K :=
    .pure (Set.empty_subset _)
  cases s with
  | get | value | receiverAs => exact .bind (.mk fun _ _ => Set.empty_subset _) fun _ => nothing
  | tick counter => exact .bind (.lift (tick_uses counter)) fun _ => nothing
  | fail message => exact .throw _
  | failBelow counter n message =>
    refine .bind (.lift memory_uses) fun m => ?_
    split
    · exact .throw _
    · exact nothing
  | run o => exact .bind (ran o) fun _ => nothing
  | runAt counter n o =>
    refine .bind (.lift memory_uses) fun m => ?_
    split
    · exact .bind (ran o) fun _ => nothing
    · exact nothing
  | attempt o =>
    refine .bind (ran o) fun x => ?_
    cases x with
    | ok => exact nothing
    | error f => exact .throw _

theorem performAll_yields (a : Arguments Body) (ss : List Step) :
    Yields holdings (performAll a ss) (fun _ => ∅) K := by
  induction ss generalizing K with
  | nil => exact .pure (Set.empty_subset _)
  | cons s ss ih => exact .bind (s.perform_yields a) fun _ => ih

end Session

namespace Arguments

variable {a : Arguments γ} {index : Nat} {t : ValueType} {v : Value γ}

theorem mem_instances_of_value (h : a.value index = .ok v) : v ∈ a.instances := by
  unfold value at h
  split at h
  · next hindex =>
    cases h
    exact .inr (List.mem_of_getElem? hindex)
  · cases h

theorem mem_instances_of_get (h : a.get index t = .ok v) : v ∈ a.instances := by
  unfold get at h
  cases hvalue : a.value index with
  | error e => rw [hvalue] at h; cases h
  | ok w =>
    rw [hvalue] at h
    change (if w.type = t then Except.ok w else _) = _ at h
    split at h
    · cases h
      exact mem_instances_of_value hvalue
    · cases h

theorem mem_instances_of_receiverAs (h : a.receiverAs t = .ok v) : v ∈ a.instances := by
  unfold receiverAs at h
  split at h
  · cases h
  · next hreceiver =>
    split at h
    · cases h
      exact .inl hreceiver
    · cases h

end Arguments

namespace Session

variable {K : Set Instance}

theorem Result.make_yields {a : Arguments Body} (ha : a.instances ⊆ holdings.within K) (r : Result) :
    Yields holdings (r.make a) (fun v => {v}) K := by
  have made {K : Set Instance} {d : Data Body Instance} (hd : holdings.data d ⊆ holdings.within K) :
      Yields holdings (liftM (newInstance d) : Closure Instance) (fun v => {v}) K := .lift (newInstance_uses hd)
  have given {x : Except InstantiateError Instance} (hx : ∀ v, x = .ok v → v ∈ a.instances) :
      Yields holdings (ofExcept x) (fun v => {v}) K := .mk fun v h => by
    rintro w rfl
    exact ha (hx _ h)
  cases r with
  | argument => exact given fun v h => Arguments.mem_instances_of_value h
  | typedArgument => exact given fun v h => Arguments.mem_instances_of_get h
  | receiver =>
    rcases a with ⟨receiver, values⟩
    cases receiver with
    | none => exact made (Set.empty_subset _)
    | some v =>
      refine .pure ?_
      rintro w rfl
      exact ha (.inl rfl)
  | receiverAs => exact given fun v h => Arguments.mem_instances_of_receiverAs h
  | new v => exact .adapt _ (Session.make_yields v)
  | arguments => exact made fun v hv => ha (.inr hv)
  | sum | concat => exact .bind (.mk fun _ _ => Set.empty_subset _) fun _ => made (Set.empty_subset _)
  | length | isEmpty | types | inspection => exact made (Set.empty_subset _)
  | count counter => exact .bind (.lift (tick_uses counter)) fun _ => made (Set.empty_subset _)

private theorem exists_of_map_eq_ok {f : α → β} {x : Except ε α} {b : β} (h : f <$> x = .ok b) : ∃ a, b = f a := by
  cases x with
  | error e => cases h
  | ok a => exact ⟨a, (Except.ok.inj h).symm⟩

theorem Product.data_subset {a : Arguments Body} {p : Product} {d : Data Body Instance} (h : p.make a = .ok d) :
    holdings.data d ⊆ a.instances := by
  cases p with
  | logger | service | list =>
    cases h
    exact fun v hv => .inr hv
  | sum | concat =>
    obtain ⟨x, rfl⟩ := exists_of_map_eq_ok h
    exact Set.empty_subset _

theorem Product.make_yields {a : Arguments Body} (ha : a.instances ⊆ holdings.within K) (p : Product) :
    Yields holdings (ofExcept (p.make a)) holdings.data K :=
  .mk fun _ h => (Product.data_subset h).trans ha

section

variable {a : Arguments Body} (ha : a.instances ⊆ K)

include ha

private theorem instances_subset {S : Set Instance} : a.instances ⊆ holdings.within (K ∪ S) :=
  (ha.trans Set.subset_union_left).trans (subset_within _)

theorem Body.call_yields (b : Body) : Yields holdings (b.call a) (fun v => {v}) K := by
  cases b with
  | function steps result => exact .bind (performAll_yields a steps) fun _ => result.make_yields (instances_subset ha)
  | constructor steps makes =>
    exact .bind (performAll_yields a steps) fun _ => .bind (makes.make_yields (instances_subset ha)) fun d =>
      .lift (newInstance_uses subset_within_right)

theorem Body.construct_yields (b : Body) : Yields holdings (b.construct a) holdings.data K := by
  cases b with
  | function steps result =>
    refine .bind (performAll_yields a steps) fun _ => .bind (result.make_yields (instances_subset ha)) fun v => .pure ?_
    exact data_subset_within (subset_within _ (.inr rfl))
  | constructor steps makes =>
    exact .bind (performAll_yields a steps) fun _ => makes.make_yields (instances_subset ha)

end

/-- The closures of a session use nothing but their arguments and what a session holds. -/
theorem honest_closures : closures.Honest holdings where
  call b _ := (b.call_yields Set.subset_union_right).weaken fun _ v hv => ⟨v, hv, rfl⟩
  construct b _ := b.construct_yields Set.subset_union_right

/-! ### Stores -/

/-- A session can be in this store between two operations. -/
inductive Reached : Store Body Memory → Prop
  | start : Reached (.empty .empty)
  | next {o : Operation} {bound : Nat} {s s' : Store Body Memory} {x : Report} {ms : Trace Body} (h : Reached s)
    (run : o.script.runWithin closures bound s = some (x, s', ms)) :
    Reached { s' with memory := s'.memory.collected }

theorem older_empty : holdings.Older 0 (holdings.store (.empty .empty)) := by
  refine (Older.empty 0).subset ?_
  rintro v (⟨r, key, b, hb, -⟩ | ⟨name, hv⟩ | ⟨x, hx, -⟩)
  · cases hb
  · cases hv
  · cases hx

theorem store_collected_subset (s : Store Body Memory) :
    holdings.store { s with memory := s.memory.collected } ⊆ holdings.store s := by
  rintro v (hv | hv | ⟨x, hx, -⟩)
  · exact .inl hv
  · exact .inr (.inl hv)
  · cases hx

/-- Whatever a session has done, all that it holds is older than the next identity. -/
theorem Reached.older {s : Store Body Memory} (h : Reached s) : holdings.Older s.fresh (holdings.store s) := by
  induction h with
  | start => exact older_empty
  | @next o bound s s' x ms _ run ih =>
    have hstep := (o.script_uses (K := ∅)).ages (Resolver.level_ages honest_closures bound).perform run ih (.empty _)
    exact hstep.store.subset (store_collected_subset s')

/-- Every operation of a session is performed in a store of this kind, and its turn is what it leaves. -/
theorem exists_reached_of_turns {bound : Nat} {os os' : List Operation} {o : Operation} {s : Store Body Memory}
    {ts : List Turn} (hs : Reached s) (h : turns bound (os ++ o :: os') s = some ts) :
    ∃ s₁ x s₂ ms, Reached s₁ ∧ o.script.runWithin closures bound s₁ = some (x, s₂, ms) ∧
      ts[os.length]? = some ⟨x, s₂.memory.finished, ms.log⟩ := by
  induction os generalizing s ts with
  | nil =>
    rw [List.nil_append, turns] at h
    split at h
    · cases h
    · next x s' ms hrun =>
      obtain ⟨ts', -, rfl⟩ := Option.map_eq_some_iff.1 h
      exact ⟨s, x, s', ms, hs, hrun, rfl⟩
  | cons o' os ih =>
    rw [List.cons_append, turns] at h
    split at h
    · cases h
    · next x s' ms hrun =>
      obtain ⟨ts', hrest, rfl⟩ := Option.map_eq_some_iff.1 h
      exact ih (hs.next hrun) hrest

end Session

end Injection
