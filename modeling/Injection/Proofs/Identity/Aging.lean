import Injection.Proofs.Identity.Held

/-!
# Everything held is older than what comes

The identities that a run gives out are larger than all before.  So if the instances that are held in the beginning are
older than the next one, and closures make up none, then the same is true at every later moment of a run, for all that
is held then and all that the trace tells of: `Activity.Ends.aged` and `Program.During.aged`.
-/

namespace Injection

open Run Resolver

variable {γ σ α β ε : Type}

/-! ### Runs of one step and of several -/

/-- After the run, all that is held and all that its trace tells of is older than the next instance. -/
structure Holdings.Aged (H : Holdings γ σ) (s s' : Store γ σ) (out : Set (Value γ)) (ms : Trace γ) : Prop where
  fresh : s.fresh ≤ s'.fresh
  store : H.Older s'.fresh (H.store s')
  out : H.Older s'.fresh out
  trace : H.Older s'.fresh (H.trace ms)

/-- If all that the store holds and all that the run is given is older than the next instance, then so is everything
after the run, its result included. -/
def Run.Ages (m : Run γ σ α) (H : Holdings γ σ) (given : Set (Value γ)) (gives : α → Set (Value γ)) : Prop :=
  m.Ensures fun s a s' ms => H.Older s.fresh (H.store s) → H.Older s.fresh given → H.Aged s s' (gives a) ms

variable {H : Holdings γ σ} {given : Set (Value γ)} {gives : α → Set (Value γ)}

namespace Holdings

theorem older_trace_nil (n : Nat) : H.Older n (H.trace []) :=
  (Older.empty n).subset (by simp [trace])

/-- A step that gives out no identities keeps everything older than the next instance. -/
theorem Aged.of_fresh_eq {s s' : Store γ σ} {out : Set (Value γ)} {ms : Trace γ} (hfresh : s'.fresh = s.fresh)
    (hs : H.Older s.fresh (H.store s)) (hgiven : H.Older s.fresh given)
    (hstore : H.store s' ⊆ H.within (H.store s ∪ given))
    (hout : out ⊆ H.within (H.store s ∪ given)) (hms : H.trace ms ⊆ H.within (H.store s ∪ given)) :
    H.Aged s s' out ms where
  fresh := hfresh.ge
  store := hfresh ▸ (hs.union hgiven).of_within hstore
  out := hfresh ▸ (hs.union hgiven).of_within hout
  trace := hfresh ▸ (hs.union hgiven).of_within hms

theorem Aged.trans {s s' s'' : Store γ σ} {out out' : Set (Value γ)} {ms ms' : Trace γ} (h : H.Aged s s' out ms)
    (h' : H.Aged s' s'' out' ms') : H.Aged s s'' out' (ms ++ ms') where
  fresh := h.fresh.trans h'.fresh
  store := h'.store
  out := h'.out
  trace := by
    rw [trace_append]
    exact (h.trace.le h'.fresh).union h'.trace

end Holdings

open Holdings

namespace Run.Ages

variable {m : Run γ σ α} {f : α → Run γ σ β}

theorem weaken {given' : Set (Value γ)} {gives' : α → Set (Value γ)} (hm : m.Ages H given gives)
    (hgiven : given ⊆ H.within given') (hgives : ∀ a, gives' a ⊆ H.within (gives a)) : m.Ages H given' gives' := by
  intro s a s' ms h hs hheld
  have haged := hm h hs (hheld.of_within hgiven)
  exact { haged with out := haged.out.of_within (hgives a) }

theorem pure {a : α} (h : gives a ⊆ H.within given) : (pure a : Run γ σ α).Ages H given gives := by
  intro s x s' ms hx hs hgiven
  cases hx
  exact ⟨Nat.le_refl _, hs, hgiven.of_within h, older_trace_nil _⟩

theorem andThen {mid : α → Set (Value γ)} {gives : β → Set (Value γ)} (hm : m.Ages H given mid)
    (hf : ∀ a, (f a).Ages H (given ∪ mid a) gives) : (m >>= f).Ages H given gives := by
  intro s x s' ms h hs hgiven
  obtain ⟨a, s₁, ms₁, b, s₂, ms₂, h₁, h₂, heq⟩ := bind_eq_some.1 h
  cases heq
  have h₁ := hm h₁ hs hgiven
  exact h₁.trans (hf a h₂ h₁.store ((hgiven.le h₁.fresh).union h₁.out))

theorem mark {m : Mark γ} (h : H.mark m ⊆ H.within given) : (mark m : Run γ σ Unit).Ages H given fun _ => ∅ := by
  intro s x s' ms hx hs hgiven
  cases hx
  exact ⟨Nat.le_refl _, hs, .empty _, by rw [trace_singleton]; exact hgiven.of_within h⟩

theorem log (e : Event) : (log e : Run γ σ Unit).Ages H given fun _ => ∅ :=
  mark (Set.empty_subset _)

theorem between {first : Mark γ} {last : α → Mark γ} (hfirst : H.mark first ⊆ H.within given)
    (hlast : ∀ a, H.mark (last a) ⊆ H.within (given ∪ gives a)) (hm : m.Ages H given gives) :
    (between first m last).Ages H given gives := by
  refine andThen (mark hfirst) fun _ => ?_
  rw [Set.union_empty]
  refine andThen hm fun a => andThen (mark (hlast a)) fun _ => pure ?_
  exact (Set.subset_union_right.trans Set.subset_union_left).trans (subset_within _)

theorem inside (span : Span) (hm : m.Ages H given gives) : (inside span m).Ages H given gives :=
  between (Set.empty_subset _) (fun _ => Set.empty_subset _) hm

theorem read {f : Store γ σ → α} (h : ∀ s, gives (f s) ⊆ H.store s) : (read f).Ages H given gives := by
  intro s x s' ms hx hs _
  cases hx
  exact ⟨Nat.le_refl _, hs, hs.subset (h s), older_trace_nil _⟩

theorem read_none (f : Store γ σ → α) : (Run.read f).Ages H given fun _ => ∅ :=
  read fun _ => Set.empty_subset _

theorem times {gives : α → Set (Value γ)} (hm : m.Ages H ∅ gives) (n : Nat) :
    (times m n).Ages H ∅ fun as => {v | ∃ a ∈ as, v ∈ gives a} := by
  induction n with
  | zero => exact pure (by simp)
  | succ n ih =>
    refine andThen hm fun a => andThen (ih.weaken (Set.empty_subset _) fun as => subset_within _) fun as => pure ?_
    rintro v ⟨b, hb, hv⟩
    refine subset_within _ ?_
    rcases List.mem_cons.1 hb with rfl | hb
    · exact .inl (.inr hv)
    · exact .inr ⟨b, hb, hv⟩

end Run.Ages

/-! ### Steps -/

namespace Holdings

theorem bindingOf_subset_store (s : Store γ σ) (r : Registry) (key : String) :
    H.bindingOf (s.binding? r key) ⊆ H.store s :=
  fun _ hv => .inl ⟨r, key, hv⟩

theorem store_bind_subset (s : Store γ σ) (r : Registry) (key : String) (b : Binding γ) :
    H.store (s.bind r key b) ⊆ H.store s ∪ H.binding b := by
  rintro v (⟨q, k, hv⟩ | hv)
  · rw [Store.binding?_bind] at hv
    split at hv
    · obtain ⟨b', hb', hv⟩ := hv
      cases hb'
      exact .inr hv
    · exact .inl (.inl ⟨q, k, hv⟩)
  · exact .inl (.inr hv)

theorem store_unbind_subset (s : Store γ σ) (r : Registry) (key : String) : H.store (s.unbind r key) ⊆ H.store s := by
  rintro v (⟨q, k, hv⟩ | hv)
  · rw [Store.binding?_unbind] at hv
    split at hv
    · obtain ⟨b', hb', -⟩ := hv
      cases hb'
    · exact .inl ⟨q, k, hv⟩
  · exact .inr hv

theorem store_addParent (s : Store γ σ) (r parent : Registry) : H.store (s.addParent r parent) = H.store s := by
  unfold store
  simp only [Store.binding?_addParent]
  rfl

end Holdings

namespace Run.Ages

theorem newValue (d : Data γ (Value γ)) : (newValue d : Run γ σ (Value γ)).Ages H (H.data d) fun v => {v} := by
  intro s v s' ms h hs hd
  rw [newValue_apply] at h
  cases h
  have hle : s.fresh ≤ s.skip.fresh := Nat.le_succ _
  exact ⟨hle, hs.le hle, .singleton (Nat.lt_succ_self _) (hd.le hle), older_trace_nil _⟩

theorem bindKey (r : Registry) (key : String) (b : Binding γ) :
    (bindKey r key b : Run γ σ (Option (Binding γ))).Ages H (H.binding b) H.bindingOf := by
  intro s old s' ms h hs hb
  rw [bindKey_apply] at h
  cases h
  refine Aged.of_fresh_eq rfl hs hb ((store_bind_subset s r key b).trans (subset_within _))
    (((bindingOf_subset_store s r key).trans Set.subset_union_left).trans (subset_within _)) ?_
  rintro v ⟨m, hm, hv⟩
  rcases List.mem_pair.1 hm with rfl | rfl
  · exact hv.elim
  · exact subset_within _ (.inr hv)

theorem unbindKey (r : Registry) (key : String) :
    (unbindKey r key : Run γ σ (Option (Binding γ))).Ages H given H.bindingOf := by
  intro s old s' ms h hs hgiven
  rw [unbindKey_apply] at h
  cases h
  refine Aged.of_fresh_eq rfl hs hgiven
    (((store_unbind_subset s r key).trans Set.subset_union_left).trans (subset_within _))
    (((bindingOf_subset_store s r key).trans Set.subset_union_left).trans (subset_within _)) ?_
  rw [trace_singleton]
  exact Set.empty_subset _

theorem extend (r parent : Registry) :
    (extend r parent : Run γ σ (Except ExtendError Unit)).Ages H given fun _ => ∅ := by
  intro s x s' ms h hs hgiven
  cases hc : s.closesCycle r parent with
  | true =>
    rw [extend_apply_of_closesCycle hc] at h
    cases h
    exact ⟨Nat.le_refl _, hs, .empty _, (Older.empty _).subset (by simp [trace, Holdings.mark])⟩
  | false =>
    rw [extend_apply hc] at h
    cases h
    exact ⟨Nat.le_refl _, by rw [store_addParent]; exact hs, .empty _,
      (Older.empty _).subset (by simp [trace, Holdings.mark, Holdings.change])⟩

theorem memoize (r : Registry) (key : String) (f : Function γ) (v : Value γ) :
    (memoize r key f v : Run γ σ Unit).Ages H {v} fun _ => ∅ := by
  intro s x s' ms h hs hv
  rcases memoize_eq_some h with ⟨g, cached, -, -, rfl, rfl⟩ | ⟨rfl, rfl⟩
  · refine Aged.of_fresh_eq rfl hs hv ((store_bind_subset s r key (.constant v)).trans (subset_within _))
      (Set.empty_subset _) ?_
    rintro w ⟨m, hm, hw⟩
    rcases List.mem_pair.1 hm with rfl | rfl
    · exact subset_within _ (.inr hw)
    · exact hw.elim
  · exact ⟨Nat.le_refl _, hs, .empty _, older_trace_nil _⟩

end Run.Ages

/-! ### The rules of resolution -/

/-- A program that makes up no instances ages what it is given if the requests do. -/
theorem Program.Uses.ages {perform : (q : Request γ σ) → Run γ σ q.Answer}
    (h : ∀ q, (perform q).Ages H (H.request q) (H.answer q)) {p : Program γ σ α} (hp : p.Uses H gives given) :
    (p.run perform).Ages H given gives := by
  induction p generalizing given with
  | done a => exact .pure hp
  | ask q next ih =>
    exact .andThen ((h q).weaken hp.1 fun _ => subset_within _) fun x => ih x (hp.2 x)

/-- All that the resolver does ages what it is given. -/
structure Resolver.Ages (low : Resolver γ σ) (H : Holdings γ σ) : Prop where
  resolve : ∀ r key, (low.resolve r key).Ages H ∅ valueIn
  search : ∀ r key, (low.search r key).Ages H ∅ fun x => {v | x = some (.ok v)}
  perform : ∀ q, (low.perform q).Ages H (H.request q) (H.answer q)

namespace Holdings

/-- Without a receiver, what is asked for holds no other instances than the callee. -/
theorem demand_run_none (c : Callee γ) : H.demand (.run none c) ⊆ H.callee c := by
  rintro v (hv | hv)
  · cases hv
  · exact hv

/-- A callee is run with the instances that it was asked for with, and with its parameters. -/
theorem run_subset (r : Registry) (receiver : Option (Value γ)) (c : Callee γ) (vs : List (Value γ)) :
    H.callee c ∪ (c.arguments receiver vs).instances ⊆
      H.demand (.run receiver c) ∪ (Goal.all r c.keys).valuesOf (.ok vs) := by
  rintro v (hv | hv)
  · exact .inl (.inr hv)
  · have hvs (h : v ∈ vs) : v ∈ (Goal.all r c.keys).valuesOf (.ok vs) := ⟨vs, rfl, h⟩
    cases c with
    | function f => exact hv.elim (fun h => .inl (.inl h)) fun h => .inr (hvs h)
    | constructible c => exact .inr (hvs (hv.resolve_left nofun))

end Holdings

theorem valueIn_error (e : ε) (S : Set (Value γ)) : valueIn (.error e : Except ε (Value γ)) ⊆ S := by
  intro v hv
  cases hv

namespace Resolver.Ages

variable {closures : Closures γ σ} {low : Resolver γ σ} (hclosures : closures.Honest H) (h : low.Ages H)

include h

theorem resolveAll (r : Registry) (keys : List String) :
    (resolveAll low r keys).Ages H ∅ (Goal.all r keys).valuesOf := by
  induction keys with
  | nil =>
    refine .pure ?_
    rintro v ⟨vs, heq, hv⟩
    cases heq
    cases hv
  | cons key keys ih =>
    refine .andThen (h.resolve r key) fun x => ?_
    cases x with
    | error e =>
      refine .pure ?_
      rintro v ⟨vs, heq, -⟩
      cases heq
    | ok w =>
      refine .andThen (ih.weaken (Set.empty_subset _) fun _ => subset_within _) fun x => ?_
      cases x with
      | error e =>
        refine .pure ?_
        rintro v ⟨vs, heq, -⟩
        cases heq
      | ok ws =>
        refine .pure ?_
        rintro v ⟨vs, heq, hv⟩
        cases heq
        refine subset_within _ ?_
        rcases List.mem_cons.1 hv with rfl | hv
        · exact .inl (.inr rfl)
        · exact .inr ⟨ws, rfl, hv⟩

include hclosures

theorem runCallee (c : Callee γ) (a : Arguments γ) :
    (runCallee closures low c a).Ages H (H.callee c ∪ a.instances) valueIn := by
  have hlast (x : Except InstantiateError (Value γ)) :
      H.mark (.returned c x) ⊆ H.within (H.callee c ∪ a.instances ∪ valueIn x) :=
    (Set.union_subset_union_left _ Set.subset_union_left).trans (subset_within _)
  cases c with
  | function f => exact .between (subset_within _) hlast ((hclosures.call f.body a).ages h.perform)
  | constructible c =>
    refine .between (subset_within _) hlast (.andThen ((hclosures.construct c.body a).ages h.perform) fun x => ?_)
    cases x with
    | error e => exact .pure (valueIn_error _ _)
    | ok d =>
      have hd : H.data d ⊆ H.product (.ok d : Except InstantiateError _) := fun v hv => ⟨d, rfl, hv⟩
      refine .andThen ((Run.Ages.newValue d).weaken ?_ fun _ => subset_within _) fun v => .pure ?_
      · exact (hd.trans Set.subset_union_right).trans (subset_within _)
      · rintro w hw
        cases hw
        exact subset_within _ (.inr rfl)

omit hclosures h in
theorem finish (e : Event) (x : Except InstantiateError (Value γ)) :
    (finish e x : Run γ σ (Resolved γ)).Ages H (valueIn x) valueIn := by
  cases x with
  | error e => exact .andThen (.log _) fun _ => .pure (valueIn_error _ _)
  | ok v =>
    refine .andThen (.log e) fun _ => .pure ?_
    rintro w hw
    cases hw
    exact subset_within _ (.inl rfl)

theorem runIn (r : Registry) (receiver : Option (Value γ)) (c : Callee γ) :
    (runIn closures low r receiver c).Ages H (H.demand (.run receiver c)) valueIn := by
  rw [runIn_eq]
  refine .inside _ (.andThen ((h.resolveAll r c.keys).weaken (Set.empty_subset _) fun _ => subset_within _) fun x => ?_)
  cases x with
  | error e => exact .pure (valueIn_error _ _)
  | ok vs =>
    refine .andThen ((h.runCallee hclosures c (c.arguments receiver vs)).weaken ?_ fun _ => subset_within _) fun x => ?_
    · exact (run_subset r receiver c vs).trans (subset_within _)
    · exact (finish c.success x).weaken subset_within_right fun _ => subset_within _

theorem provide (r : Registry) (key : String) (f : Function γ) :
    (provide closures low r key f).Ages H (H.captured f.body) valueIn := by
  have hcall : (call closures low r none f).Ages H (H.captured f.body) valueIn :=
    (h.runIn hclosures r none (.function f)).weaken ((demand_run_none _).trans (subset_within _)) fun _ =>
      subset_within _
  refine .andThen hcall fun x => ?_
  cases x with
  | error e => exact .pure (valueIn_error _ _)
  | ok v =>
    refine .andThen (.mark ?_) fun _ => .pure ?_
    · rintro w (hw | rfl)
      · exact subset_within _ (.inl hw)
      · exact subset_within _ (.inr rfl)
    · intro w hw
      cases hw
      exact subset_within _ (.inl (.inr rfl))

theorem provideOnce (r : Registry) (key : String) (f : Function γ) :
    (provideOnce closures low r key f).Ages H (H.captured f.body) valueIn := by
  refine .between (Set.empty_subset _) (fun _ => Set.empty_subset _)
    (.andThen (h.provide hclosures r key f) fun x => ?_)
  cases x with
  | error e => exact .pure (valueIn_error _ _)
  | ok v =>
    refine .andThen ((Run.Ages.memoize r key f v).weaken ?_ fun _ => subset_within _) fun _ => .pure ?_
    · rintro w rfl
      exact subset_within _ (.inr rfl)
    · intro w hw
      cases hw
      exact subset_within _ (.inl (.inr rfl))

theorem resolveBinding (r : Registry) (key : String) (b : Binding γ) :
    (resolveBinding closures low r key b).Ages H (H.binding b) valueIn := by
  have hfound (v : Value γ) : (Run.log .found >>= fun _ => return .ok v : Run γ σ (Resolved γ)).Ages H {v} valueIn := by
    refine .andThen (.log _) fun _ => .pure ?_
    intro w hw
    cases hw
    exact subset_within _ (.inl rfl)
  cases b with
  | constant v => exact hfound v
  | singleton v => exact hfound v
  | transient c =>
    exact (h.runIn hclosures r none (.constructible c)).weaken ((demand_run_none _).trans (subset_within _)) fun _ =>
      subset_within _
  | provider f cached =>
    cases cached with
    | false => exact h.provide hclosures r key f
    | true => exact h.provideOnce hclosures r key f

omit hclosures in
theorem searchParents (key : String) (ps : List Registry) :
    (searchParents low key ps).Ages H ∅ (Goal.parents key ps).valuesOf := by
  induction ps with
  | nil => exact .pure (by rintro v hv; cases hv)
  | cons p ps ih =>
    have hrest (S : Set (Value γ)) : (Resolver.searchParents low key ps).Ages H S (Goal.parents key ps).valuesOf :=
      ih.weaken (Set.empty_subset _) fun _ => subset_within _
    refine .andThen (h.search p key) fun found => ?_
    cases found with
    | none => exact hrest _
    | some x =>
      cases x with
      | error e => exact .andThen (.log _) fun _ => hrest _
      | ok v =>
        refine .andThen (.log _) fun _ => .pure ?_
        intro w hw
        cases hw
        exact subset_within _ (.inl (.inr rfl))

theorem searchFrom (r : Registry) (key : String) :
    (searchFrom closures low r key).Ages H ∅ (Goal.search r key).valuesOf := by
  refine .between (Set.empty_subset _) (fun x => subset_within_right)
    (.andThen (.read fun s => bindingOf_subset_store s r key) fun found => ?_)
  cases found with
  | none =>
    refine .andThen (.read_none _) fun ps => ?_
    exact (h.searchParents key _).weaken (Set.empty_subset _) fun _ => subset_within _
  | some b =>
    refine .andThen ((h.resolveBinding hclosures r key b).weaken ?_ fun _ => subset_within _) fun x => .pure ?_
    · exact fun v hv => subset_within _ (.inr ⟨b, rfl, hv⟩)
    · intro v hv
      cases hv
      exact subset_within _ (.inr rfl)

omit hclosures in
theorem resolveKey (r : Registry) (key : String) : (resolveKey low r key).Ages H ∅ valueIn := by
  refine .inside _ (.andThen (h.search r key) fun x => ?_)
  cases x with
  | none =>
    refine .andThen (.read_none _) fun ancestors => ?_
    exact .andThen (.log _) fun _ => .pure (valueIn_error _ _)
  | some x =>
    refine .pure ?_
    intro v hv
    cases hv
    exact subset_within _ (.inr rfl)

theorem pursue (g : Goal γ) : (pursue closures low g).Ages H (H.goal g) g.valuesOf := by
  cases g with
  | meet r d =>
    cases d with
    | key key => exact h.resolve r key
    | run receiver c => exact h.runIn hclosures r receiver c
    | other t => exact .pure (valueIn_error _ _)
  | search r key => exact h.search r key
  | parents key ps => exact h.searchParents key ps
  | attempt r key b => exact h.resolveBinding hclosures r key b
  | all r keys => exact h.resolveAll r keys

end Resolver.Ages

/-! ### Requests -/

/-- What is asked of a registry holds no other instances than the request. -/
theorem Holdings.demand_subset {q : Request γ σ} {r : Registry} {d : Demand γ} (hq : q.demand? = some (r, d)) :
    H.demand d ⊆ H.within (H.request q) := by
  cases q with
  | get | getAs =>
    cases hq
    exact Set.empty_subset _
  | invoke r receiver f =>
    cases hq
    exact subset_within _
  | invokeValue r receiver target =>
    cases hq
    unfold Demand.value
    split
    · rename_i f hf
      rintro v (hv | hv)
      · exact subset_within _ (.inl hv)
      · refine ⟨target, .inr rfl, .single ?_⟩
        rw [hf]
        exact hv
    · exact Set.empty_subset _
  | instantiate r c =>
    cases hq
    exact (demand_run_none _).trans (subset_within _)
  | singleton r key c =>
    cases hq
    exact (demand_run_none _).trans (subset_within _)
  | register r key f =>
    cases hq
    exact (demand_run_none _).trans (subset_within _)
  | _ => cases hq

theorem Resolver.conclude_ages (q : Request γ σ) (x : Resolved γ) :
    (conclude q x).Ages H (valueIn x) (H.answer q) := by
  have hreporting (x : Resolved γ) : (reporting (return x) : Run γ σ (Resolved γ)).Ages H (valueIn x) valueIn := by
    intro s a s' ms h hs hx
    obtain ⟨ms', hp, rfl⟩ := reporting_eq_some.1 h
    cases hp
    refine ⟨Nat.le_refl _, hs, hx, (Older.empty _).subset ?_⟩
    cases x <;> simp [trace, reportOf, Holdings.mark]
  have hending {β : Type} (c : Call) {m : Run γ σ (Except ResolveError β)} {S : Set (Value γ)}
      {gives : Except ResolveError β → Set (Value γ)} (hm : m.Ages H S gives) : (ending c m).Ages H S gives := by
    refine .andThen hm fun a => .andThen (.mark (Set.empty_subset _)) fun _ => .pure ?_
    exact (Set.subset_union_right.trans Set.subset_union_left).trans (subset_within _)
  have hbind (r : Registry) (key : String) (kind : Value γ → Binding γ) (hkind : ∀ v, H.binding (kind v) = {v}) :
      (bindResult r key kind (reporting (return x)) : Run γ σ (Except ResolveError Unit)).Ages H (valueIn x)
        fun _ => ∅ := by
    refine .andThen (hreporting x) fun y => ?_
    cases y with
    | error e => exact .pure (Set.empty_subset _)
    | ok v =>
      refine .andThen ((Run.Ages.bindKey r key (kind v)).weaken ?_ fun _ => subset_within _) fun _ =>
        .pure (Set.empty_subset _)
      rw [hkind]
      rintro w rfl
      exact subset_within _ (.inr rfl)
  cases q with
  | get | invoke | invokeValue | instantiate => exact hending _ (hreporting x)
  | getAs r key t =>
    refine hending _ ((hreporting (checked key t x)).weaken ?_ fun _ => subset_within _)
    intro v hv
    cases x with
    | error e => cases hv
    | ok w =>
      have hv : (if w.type = t then .ok w else .error (.incorrectType key t w.type) : Resolved γ) = .ok v := hv
      split at hv
      · cases hv
        exact subset_within _ rfl
      · cases hv
  | singleton r key c => exact hending _ (hbind r key .singleton fun _ => rfl)
  | register r key f => exact hending _ (hbind r key .constant fun _ => rfl)
  | _ => exact outOfBound_ensures _

namespace Resolver.Ages

variable {closures : Closures γ σ} {low : Resolver γ σ}

theorem performWith_of_demand (hclosures : closures.Honest H) (h : low.Ages H) {q : Request γ σ} {r : Registry}
    {d : Demand γ} (hq : q.demand? = some (r, d)) : (performWith closures low q).Ages H (H.request q) (H.answer q) := by
  rw [performWith_eq hq]
  refine .andThen (.mark (Set.empty_subset _)) fun _ => .andThen
    ((h.pursue hclosures (.meet r d)).weaken ?_ fun _ => subset_within _) fun x => ?_
  · rw [Set.union_empty]
    exact demand_subset hq
  · exact (conclude_ages q x).weaken subset_within_right fun _ => subset_within _

theorem performWith (hclosures : closures.Honest H) (h : low.Ages H) (q : Request γ σ) :
    (performWith closures low q).Ages H (H.request q) (H.answer q) := by
  have hskip {s : Store γ σ} (hs : H.Older s.fresh (H.store s)) {out : Set (Value γ)} (hout : H.Older s.fresh out) :
      H.Aged s s.skip out [] :=
    have hle : s.fresh ≤ s.skip.fresh := Nat.le_succ _
    ⟨hle, hs.le hle, hout.le hle, older_trace_nil _⟩
  cases q with
  | newRegistry name =>
    intro s r s' ms hx hs hgiven
    cases hx
    exact hskip hs (.empty _)
  | newFunction source body =>
    intro s f s' ms hx hs hgiven
    cases hx
    exact hskip hs hgiven
  | newValue d => exact .newValue d
  | readMemory => exact .read fun s => Set.subset_union_right
  | writeMemory memory =>
    intro s x s' ms hx hs hgiven
    cases hx
    refine Aged.of_fresh_eq rfl hs hgiven (Set.Subset.trans ?_ (subset_within _)) (Set.empty_subset _) ?_
    · rintro v (hv | hv)
      · exact .inl (.inl hv)
      · exact .inr hv
    · simp [trace]
  | parents r => exact .read_none _
  | has r key => exact .read_none _
  | bind r key b => exact .bindKey r key b
  | unbind r key => exact .unbindKey r key
  | extend r parent => exact .between (Set.empty_subset _) (fun _ => Set.empty_subset _) (.extend r parent)
  | call f a => exact h.runCallee hclosures (.function f) a
  | construct c a => exact h.runCallee hclosures (.constructible c) a
  | getInThreads r key threads =>
    have hget := h.performWith_of_demand hclosures (q := .get r key) rfl
    refine .between (Set.empty_subset _) (fun _ => Set.empty_subset _) ((Run.Ages.times hget threads).weaken
      (Set.empty_subset _) fun xs => Set.Subset.trans ?_ (subset_within _))
    exact fun v hv => ⟨.ok v, hv, rfl⟩
  | _ => exact h.performWith_of_demand hclosures rfl

end Resolver.Ages

theorem Resolver.level_ages {closures : Closures γ σ} (hclosures : closures.Honest H) (n : Nat) :
    (level closures n).Ages H := by
  induction n with
  | zero => exact ⟨fun _ _ => outOfBound_ensures _, fun _ _ => outOfBound_ensures _, fun _ => outOfBound_ensures _⟩
  | succ n ih => exact ⟨ih.resolveKey, ih.searchFrom hclosures, ih.performWith hclosures⟩

/-! ### Activities -/

variable {closures : Closures γ σ} {s s' s₁ : Store γ σ} {ms pre : Trace γ}

theorem Activity.Ends.aged (hclosures : closures.Honest H) {x : Activity γ σ} {a : x.Answer}
    (h : x.Ends closures s a s' ms) (hs : H.Older s.fresh (H.store s)) (hx : H.Older s.fresh (H.activity x)) :
    H.Aged s s' (H.outcome x a) ms := by
  obtain ⟨n, h⟩ := h
  have hn := level_ages hclosures n
  cases x with
  | request q => exact hn.perform q h hs hx
  | goal g => exact hn.pursue hclosures g h hs hx
  | run c args => exact hn.runCallee hclosures c args h hs hx

theorem Resolver.Resolves.aged (hclosures : closures.Honest H) {g : Goal γ} {a : g.Answer}
    (h : Resolves closures g s a s' ms) (hs : H.Older s.fresh (H.store s)) (hg : H.Older s.fresh (H.goal g)) :
    H.Aged s s' (g.valuesOf a) ms :=
  Activity.Ends.aged hclosures (x := .goal g) h.ends hs hg

theorem Program.Asks.aged (hclosures : closures.Honest H) {p : Program γ σ α} {q : Request γ σ}
    (hp : p.Uses H gives given) (h : p.Asks closures s pre q s₁) (hs : H.Older s.fresh (H.store s))
    (hgiven : H.Older s.fresh given) : H.Aged s s₁ (H.request q) pre := by
  induction h generalizing given with
  | first q next s => exact ⟨Nat.le_refl _, hs, hgiven.of_within hp.1, older_trace_nil _⟩
  | later answer asks ih =>
    have hanswer := answer.aged hclosures hs (hgiven.of_within hp.1)
    exact hanswer.trans (ih (hp.2 _) hanswer.store ((hgiven.le hanswer.fresh).union hanswer.out))

namespace Activity

theorem Does.aged (hclosures : closures.Honest H) {x y : Activity γ σ} (h : x.Does closures s pre y s₁)
    (hs : H.Older s.fresh (H.store s)) (hx : H.Older s.fresh (H.activity x)) : H.Aged s s₁ (H.activity y) pre := by
  -- a mark that tells of nothing but what the activity is begun with
  have marked {m : Mark γ} (hm : H.mark m ⊆ H.within (H.activity x)) {out : Set (Value γ)}
      (hout : H.Older s.fresh out) : H.Aged s s out [m] :=
    ⟨Nat.le_refl _, hs, hout, by rw [trace_singleton]; exact hx.of_within hm⟩
  have same {out : Set (Value γ)} (hout : H.Older s.fresh out) : H.Aged s s out [] :=
    ⟨Nat.le_refl _, hs, hout, older_trace_nil _⟩
  have hempty {S : Set (Value γ)} : (∅ : Set (Value γ)) ⊆ S := Set.empty_subset _
  cases h with
  | function asks =>
    exact (marked (subset_within _) (.empty _)).trans (asks.aged hclosures (hclosures.call _ _) hs hx)
  | constructible asks =>
    exact (marked (subset_within _) (.empty _)).trans (asks.aged hclosures (hclosures.construct _ _) hs hx)
  | demand hq => exact marked hempty (hx.of_within (demand_subset hq))
  | call => exact same hx
  | construct => exact same hx
  | @thread r key k n _ _ as _ before lt =>
    obtain ⟨m, before⟩ := before
    have hbefore := Run.Ages.times ((level_ages hclosures m).perform (.get r key)) k before hs (.empty _)
    have hend : H.Aged s s ∅ [.forked] := marked hempty (.empty _)
    exact hend.trans { hbefore with out := .empty _ }
  | search => exact marked hempty (.empty _)
  | inject => exact marked hempty (.empty _)
  | @run r receiver c _ _ vs _ all =>
    have hall := all.aged hclosures hs (.empty _)
    have hend : H.Aged s s ∅ [.entered (c.span r)] := marked hempty (.empty _)
    refine hend.trans { hall with out := ?_ }
    exact ((hx.le hall.fresh).union hall.out).subset (run_subset r receiver c vs)
  | bound bound => exact marked hempty (hs.subset fun v hv => bindingOf_subset_store s _ _ ⟨_, bound, hv⟩)
  | inherited => exact marked hempty (.empty _)
  | parent => exact same (.empty _)
  | @failed _ p _ _ e _ search =>
    have hsearch := search.aged hclosures hs (.empty _)
    have hend : H.Aged s₁ s₁ ∅ [.logged (.parentFailed p.name e.message)] :=
      ⟨Nat.le_refl _, hsearch.store, .empty _, by rw [trace_singleton]; exact .empty _⟩
    exact hsearch.trans hend
  | absent search => exact { search.aged hclosures hs (.empty _) with out := .empty _ }
  | transient r key c => exact same (hx.subset (demand_run_none _))
  | provider r key f cached =>
    have hf : H.Older s.fresh (H.demand (.run none (.function f))) := hx.subset (demand_run_none _)
    cases cached with
    | false => exact same hf
    | true => exact marked hempty hf
  | parameter => exact same (.empty _)
  | parameters first => exact { first.aged hclosures hs (.empty _) with out := .empty _ }

theorem During.aged (hclosures : closures.Honest H) {x y : Activity γ σ} (h : x.During closures s pre y s₁)
    (hs : H.Older s.fresh (H.store s)) (hx : H.Older s.fresh (H.activity x)) : H.Aged s s₁ (H.activity y) pre := by
  induction h with
  | self x s => exact ⟨Nat.le_refl _, hs, hx, older_trace_nil _⟩
  | inside does _ ih =>
    have hdoes := does.aged hclosures hs hx
    exact hdoes.trans (ih hdoes.store hdoes.out)

end Activity

/-- Whatever goes on during a program, all that is held when it begins is older than the next instance. -/
theorem Program.During.aged (hclosures : closures.Honest H) {p : Program γ σ α} {x : Activity γ σ}
    (hp : p.Uses H gives given) (h : p.During closures s pre x s₁) (hs : H.Older s.fresh (H.store s))
    (hgiven : H.Older s.fresh given) : H.Aged s s₁ (H.activity x) pre := by
  obtain ⟨q, s₀, ms₀, ms₁, hq, hx, rfl⟩ := h
  have hasks := hq.aged hclosures hp hs hgiven
  exact hasks.trans (hx.aged hclosures hasks.store hasks.out)

end Injection
