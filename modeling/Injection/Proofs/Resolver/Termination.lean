import Injection.Proofs.Resolver.Visiting

/-!
# Resolution ends

A rank on keys in registries that falls from every key to the bindings that the search for one of its parameters can
try excludes infinite resolution (`Store.Ranked`).  Parents need no rank: a search tries the candidates of its key, one
after the other, and there are finitely many, since delegation is acyclic.  So an attempt at a binding ends by induction
on its rank (`attempt_ends`), provided that closures end when they are run.

Memoizing keeps the rank, for all that is left to run was bound before.  Where a request binds a value, the rank is
raised by one everywhere else.  Hence requests end in all stores that requests lead to: `resolution_ends`.
-/

namespace Injection

open Run Relation

variable {γ σ α : Type}

/-! ### Ranks -/

namespace Store

variable {s s' : Store γ σ} {r q : Registry} {key : String} {rank : Registry → String → Nat}

/-- The rank falls from each key that is bound to something to run, to the candidates for each key that this injects. -/
def Ranked (s : Store γ σ) (rank : Registry → String → Nat) : Prop :=
  ∀ r key b c j q, s.binding? r key = some b → b.callee? = some c → j ∈ c.keys → q ∈ s.candidates j r →
    rank q j < rank r key

theorem SameShape.candidates_eq (h : s.SameShape s') (hs : s.Acyclic) (key : String) (r : Registry) :
    s'.candidates key r = s.candidates key r := by
  unfold candidates
  -- the stores bound their recursions differently; the larger bound serves both
  rw [← Store.candidatesWithin_eq key ((hs.congr h.parents).height r) (Nat.le_max_right s.registries.size _),
    h.candidatesWithin_eq, Store.candidatesWithin_eq key (hs.height r) (Nat.le_max_left _ _)]

/-- What follows for a registry from its parents holds of all registries. -/
theorem Acyclic.induction (hs : s.Acyclic) {P : Registry → Prop} (h : ∀ r, (∀ p, s.IsParent r p → P p) → P r)
    (r : Registry) : P r := by
  have hheight (n : Nat) (r : Registry) (hn : s.HeightAtMost n r) : P r := by
    induction n generalizing r with
    | zero =>
      refine h r fun p hp => ?_
      unfold IsParent at hp
      rw [hn.parents_eq_nil] at hp
      cases hp
    | succ n ih => exact h r fun p hp => ih p (hn.parent hp)
  exact hheight _ r (hs.height r)

theorem Acyclic.mem_candidates_iff (hs : s.Acyclic) :
    q ∈ s.candidates key r ↔ ((s.binding? r key).isSome ∧ q = r) ∨
      (s.binding? r key = none ∧ ∃ p, s.IsParent r p ∧ q ∈ s.candidates key p) := by
  rw [hs.candidates_eq]
  cases s.binding? r key with
  | none => simp [IsParent]
  | some b => simp

/-- Candidates bind the key. -/
theorem Acyclic.binding?_of_mem_candidates (hs : s.Acyclic) (h : q ∈ s.candidates key r) :
    (s.binding? q key).isSome := by
  induction r using hs.induction with
  | h r ih =>
    obtain ⟨hb, rfl⟩ | ⟨-, p, hp, hq⟩ := hs.mem_candidates_iff.1 h
    · exact hb
    · exact ih p hp hq

/-- The candidates for a key after a binding are those from before, and the registry if the key was bound in it. -/
theorem Acyclic.mem_candidates_bind (hs : s.Acyclic) {k : String} {p : Registry} {b : Binding γ}
    (h : q ∈ (s.bind r key b).candidates k p) : q ∈ s.candidates k p ∨ q = r ∧ k = key := by
  have hs' : (s.bind r key b).Acyclic := hs.congr fun p => parents_bind ..
  induction p using hs.induction with
  | h p ih =>
    rw [hs'.mem_candidates_iff, binding?_bind] at h
    by_cases hp : p = r ∧ k = key
    · rw [if_pos hp] at h
      obtain ⟨-, rfl⟩ | ⟨hb, -⟩ := h
      · exact .inr hp
      · cases hb
    · rw [if_neg hp] at h
      obtain ⟨hb, rfl⟩ | ⟨hb, p', hp', hq⟩ := h
      · exact .inl (hs.mem_candidates_iff.2 (.inl ⟨hb, rfl⟩))
      · unfold IsParent at hp'
        rw [parents_bind] at hp'
        refine (ih p' hp' hq).imp (fun hq => ?_) id
        exact hs.mem_candidates_iff.2 (.inr ⟨hb, p', hp', hq⟩)

theorem Ranked.settles (h : s.Ranked rank) (hs : s.Acyclic) (hsettles : s.Settles s') : s'.Ranked rank := by
  intro r key b c j q hb hc hj hq
  rw [hsettles.sameShape.candidates_eq hs] at hq
  exact h r key b c j q (hsettles.of_callee hb hc) hc hj hq

/-- A key bound to a value takes the lowest rank, and all that is left to run rises above it. -/
theorem Ranked.bind (h : s.Ranked rank) (hs : s.Acyclic) {b : Binding γ} (hb : b.callee? = none) :
    ∃ rank', (s.bind r key b).Ranked rank' := by
  refine ⟨fun p k => if p = r ∧ k = key then 0 else rank p k + 1, ?_⟩
  intro p k b' c j q hb' hc hj hq
  have hp : ¬ (p = r ∧ k = key) := by
    intro hp
    rw [binding?_bind, if_pos hp] at hb'
    cases hb'
    rw [hb] at hc
    cases hc
  rw [binding?_bind, if_neg hp] at hb'
  simp only [if_neg hp]
  by_cases hq' : q = r ∧ j = key
  · rw [if_pos hq']
    exact Nat.succ_pos _
  · rw [if_neg hq']
    have hmem := (hs.mem_candidates_bind hq).resolve_right hq'
    exact Nat.succ_lt_succ (h p k b' c j q hb' hc hj hmem)

end Store

/-! ### Closures that end -/

/-- Closures end whenever they are run. -/
structure Closures.Halt (closures : Closures γ σ) : Prop where
  call : ∀ body a s, ∃ x s' ms, Resolver.Ends closures (fun low => (closures.call body a).run low.perform) s x s' ms
  construct : ∀ body a s,
    ∃ x s' ms, Resolver.Ends closures (fun low => (closures.construct body a).run low.perform) s x s' ms

/-- The request is detached and runs no closure. -/
def Request.IsPlain : Request γ σ → Prop
  | .newRegistry _ | .newFunction _ _ | .newValue _ | .readMemory | .writeMemory _ => True
  | _ => False

/-- All requests of the program are plain, whatever answers it gets. -/
def Program.IsPlain : Program γ σ α → Prop
  | .done _ => True
  | .ask q next => q.IsPlain ∧ ∀ x, (next x).IsPlain

theorem Program.IsPlain.ends {p : Program γ σ α} (hp : p.IsPlain) (closures : Closures γ σ) (s : Store γ σ) :
    ∃ x s' ms, p.run (Resolver.level closures 1).perform s = some (x, s', ms) := by
  induction p generalizing s with
  | done a => exact ⟨a, s, [], rfl⟩
  | ask q next ih =>
    obtain ⟨x, s₁, ms₁, hq⟩ : ∃ x s₁ ms₁, (Resolver.level closures 1).perform q s = some (x, s₁, ms₁) := by
      cases q with
      | newRegistry | newFunction | newValue | readMemory | writeMemory => exact ⟨_, _, _, rfl⟩
      | _ => cases hp.1
    obtain ⟨y, s', ms, hnext⟩ := ih x (hp.2 x) s₁
    exact ⟨y, s', _, bind_eq_some.2 ⟨x, s₁, ms₁, y, s', ms, hq, hnext, rfl⟩⟩

/-- Only closures that run others can fail to end. -/
theorem Closures.halt_of_isPlain {closures : Closures γ σ} (hcall : ∀ body a, (closures.call body a).IsPlain)
    (hconstruct : ∀ body a, (closures.construct body a).IsPlain) : closures.Halt where
  call body a s := by
    obtain ⟨x, s', ms, h⟩ := (hcall body a).ends closures s
    exact ⟨x, s', ms, 1, h⟩
  construct body a s := by
    obtain ⟨x, s', ms, h⟩ := (hconstruct body a).ends closures s
    exact ⟨x, s', ms, 1, h⟩

namespace Resolver

variable {closures : Closures γ σ} {s s' : Store γ σ} {rank : Registry → String → Nat} {r : Registry} {key : String}

theorem runCallee_ends (hhalt : closures.Halt) (c : Callee γ) (a : Arguments γ) (s : Store γ σ) :
    ∃ x s' ms, Ends closures (runCallee closures · c a) s x s' ms := by
  cases c with
  | function f =>
    obtain ⟨x, s', ms, n, h⟩ := hhalt.call f.body a s
    exact ⟨x, s', _, n, between_eq_some.2 ⟨ms, h, rfl⟩⟩
  | constructible c =>
    obtain ⟨x, s', ms, n, h⟩ := hhalt.construct c.body a s
    cases x with
    | error e =>
      exact ⟨.error e, s', _, n, between_eq_some.2 ⟨_, bind_eq_some.2 ⟨_, _, _, _, _, _, h, rfl, rfl⟩, rfl⟩⟩
    | ok data =>
      exact ⟨.ok ⟨s'.fresh, data⟩, s'.skip, _, n,
        between_eq_some.2 ⟨_, bind_eq_some.2 ⟨_, _, _, _, _, _, h, rfl, rfl⟩, rfl⟩⟩

theorem memoize_ends (f : Function γ) (v : Value γ) (s : Store γ σ) :
    ∃ s' ms, memoize r key f v s = some ((), s', ms) := by
  rcases memoize_cases r key f v s with ⟨g, cached, -, -, hm⟩ | hm
  · exact ⟨_, _, hm⟩
  · exact ⟨_, _, hm⟩

/-! ### Resolution ends -/

/-- In every store with the rank, an attempt at what the registry binds to the key ends. -/
def AttemptEnds (closures : Closures γ σ) (rank : Registry → String → Nat) (q : Registry) (key : String) : Prop :=
  ∀ ⦃s : Store γ σ⦄ ⦃b⦄, s.Acyclic → s.Ranked rank → s.binding? q key = some b →
    ∃ a s' ms, Resolves closures (.attempt q key b) s a s' ms

theorem Tries.onlyMemoizes (hclosures : closures.Detached) {qs : List Registry} {o : Option (Value γ)}
    {ms : Trace γ} (h : Tries closures key s qs o s' ms) : ms.OnlyMemoizes := by
  have attempt {q : Registry} {b : Binding γ} {s s' : Store γ σ} {a : Resolved γ} {ms : Trace γ}
      (h : Ends closures (resolveBinding closures · q key b) s a s' ms) : ms.OnlyMemoizes :=
    ((resolves_iff (g := .attempt q key b)).2 h).onlyMemoizes hclosures
  induction h with
  | exhausted => exact Trace.onlyMemoizes_nil
  | found _ h => exact attempt h
  | failed _ h _ ih => exact Trace.onlyMemoizes_append.2 ⟨attempt h, ih⟩

private theorem tries_end (hclosures : closures.Detached) {qs : List Registry}
    (hqs : ∀ q ∈ qs, AttemptEnds closures rank q key ∧ (s.binding? q key).isSome) (hs : s.Acyclic)
    (hrank : s.Ranked rank) : ∃ o s' ms, Tries closures key s qs o s' ms := by
  induction qs generalizing s with
  | nil => exact ⟨none, s, [], .exhausted s⟩
  | cons q qs ih =>
    obtain ⟨hq, hbound⟩ := hqs q List.mem_cons_self
    obtain ⟨b, hb⟩ := Option.isSome_iff_exists.1 hbound
    obtain ⟨a, s₁, ms₁, ha⟩ := hq hs hrank hb
    cases a with
    | ok v => exact ⟨some v, s₁, ms₁, .found hb ha.ends⟩
    | error e =>
      -- the others are still bound, and their attempts still end
      have hsettles : s.Settles s₁ := ha.settles_of_detached hclosures
      obtain ⟨o, s', ms₂, hrest⟩ := ih (fun p hp => ⟨(hqs p (List.mem_cons_of_mem q hp)).1,
        (hsettles.sameShape.bound p key).trans (hqs p (List.mem_cons_of_mem q hp)).2⟩) (hsettles.acyclic hs)
        (hrank.settles hs hsettles)
      exact ⟨o, s', _, .failed hb ha.ends hrest⟩

private theorem key_ends (hclosures : closures.Detached)
    (hc : ∀ q ∈ s.candidates key r, AttemptEnds closures rank q key) (hs : s.Acyclic) (hrank : s.Ranked rank) :
    ∃ a s' ms, Resolves closures (.meet r (.key key)) s a s' ms := by
  obtain ⟨o, s', ms, ht⟩ := tries_end hclosures
    (fun q hq => ⟨hc q hq, hs.binding?_of_mem_candidates hq⟩) hs hrank
  obtain ⟨x, ms', hsearch, -⟩ := search_of_tries (hs.height r) ht (ht.onlyMemoizes hclosures)
  exact ⟨_, s', _, .key ((resolves_iff (g := .search r key)).2 hsearch)⟩

private theorem all_end (hclosures : closures.Detached) {keys : List String}
    (hc : ∀ j ∈ keys, ∀ q ∈ s.candidates j r, AttemptEnds closures rank q j) (hs : s.Acyclic)
    (hrank : s.Ranked rank) : ∃ x s' ms, Resolves closures (.all r keys) s x s' ms := by
  induction keys generalizing s with
  | nil => exact ⟨.ok [], s, [], .nil r s⟩
  | cons key keys ih =>
    obtain ⟨a, s₁, ms₁, ha⟩ := key_ends hclosures (hc key List.mem_cons_self) hs hrank
    cases a with
    | error e => exact ⟨.error e, s₁, ms₁, .stopped ha⟩
    | ok v =>
      have hsettles : s.Settles s₁ := ha.settles_of_detached hclosures
      have hc₁ : ∀ j ∈ keys, ∀ q ∈ s₁.candidates j r, AttemptEnds closures rank q j := by
        intro j hj q hq
        rw [hsettles.sameShape.candidates_eq hs] at hq
        exact hc j (List.mem_cons_of_mem key hj) q hq
      obtain ⟨x, s', ms₂, hx⟩ := ih hc₁ (hsettles.acyclic hs) (hrank.settles hs hsettles)
      exact ⟨_, s', _, .cons ha hx⟩

private theorem run_ends (hclosures : closures.Detached) (hhalt : closures.Halt) {receiver : Option (Value γ)}
    {c : Callee γ} (hc : ∀ j ∈ c.keys, ∀ q ∈ s.candidates j r, AttemptEnds closures rank q j) (hs : s.Acyclic)
    (hrank : s.Ranked rank) : ∃ a s' ms, Resolves closures (.meet r (.run receiver c)) s a s' ms := by
  obtain ⟨x, s₁, ms₁, hx⟩ := all_end hclosures hc hs hrank
  cases x with
  | error e => exact ⟨_, s₁, _, .unresolved hx⟩
  | ok vs =>
    obtain ⟨y, s', ms₂, hy⟩ := runCallee_ends hhalt c (c.arguments receiver vs) s₁
    exact ⟨_, s', _, .run hx hy⟩

/-- An attempt at a binding ends once what it runs has ended. -/
private theorem attempt_of_run {b : Binding γ} {c : Callee γ} (hc : b.callee? = some c) {a : Resolved γ} {ms : Trace γ}
    (h : Resolves closures (.meet r (.run none c)) s a s' ms) :
    ∃ a s' ms, Resolves closures (.attempt r key b) s a s' ms := by
  cases b with
  | constant | singleton => cases hc
  | transient =>
    cases hc
    exact ⟨a, s', ms, .transient h⟩
  | provider f cached =>
    cases hc
    cases a with
    | error e => exact ⟨_, s', _, .unprovided h⟩
    | ok v =>
      cases cached with
      | false => exact ⟨_, s', _, .provided h⟩
      | true =>
        obtain ⟨s'', ms', hm⟩ := memoize_ends f v s'
        exact ⟨_, s'', _, .kept h hm⟩

/-- Attempts at bindings end, by induction on the rank. -/
theorem attempt_ends (hclosures : closures.Detached) (hhalt : closures.Halt) (q : Registry) (key : String) :
    AttemptEnds closures rank q key := by
  generalize hn : rank q key = n
  induction n using Nat.strong_induction_on generalizing q key with
  | _ n ih =>
    intro s b hs hrank hb
    cases hc : b.callee? with
    | none =>
      obtain ⟨v, hv⟩ := Binding.callee?_eq_none_iff.1 hc
      exact ⟨_, s, _, .value hv q key s⟩
    | some c =>
      have hkeys : ∀ j ∈ c.keys, ∀ p ∈ s.candidates j q, AttemptEnds closures rank p j := by
        intro j hj p hp
        have hlt : rank p j < rank q key := hrank q key b c j p hb hc hj hp
        exact ih (rank p j) (hn ▸ hlt) p j rfl
      obtain ⟨a, s', ms, hrun⟩ : ∃ a s' ms, Resolves closures (.meet q (.run none c)) s a s' ms :=
        run_ends hclosures hhalt hkeys hs hrank
      exact attempt_of_run hc hrun

/-- All that can be asked of a registry ends. -/
theorem meet_ends (hclosures : closures.Detached) (hhalt : closures.Halt) (hs : s.Acyclic) (hrank : s.Ranked rank)
    (r : Registry) (d : Demand γ) : ∃ a s' ms, Resolves closures (.meet r d) s a s' ms := by
  have hattempt (q : Registry) (j : String) : AttemptEnds closures rank q j := attempt_ends hclosures hhalt q j
  cases d with
  | key key => exact key_ends hclosures (fun q _ => hattempt q key) hs hrank
  | run receiver c => exact run_ends hclosures hhalt (fun j _ q _ => hattempt q j) hs hrank
  | other t => exact ⟨_, s, _, .other r t s⟩

/-- One of the requests that ask a registry for anything leads from the one store to the other, whether it succeeds or
fails. -/
def LooksUp (closures : Closures γ σ) (s s' : Store γ σ) : Prop :=
  ∃ (q : Request γ σ) (a : q.Answer) (ms : Trace γ), q.demand?.isSome ∧ Ends closures (·.perform q) s a s' ms

theorem LooksUp.reachable (h : LooksUp closures s s') (hs : s.Reachable) : s'.Reachable := by
  obtain ⟨q, a, ms, -, n, h⟩ := h
  exact hs.steps ((level_steps closures n).perform q h)

/-- There is a rank still, if the request has not bound a value the same one. -/
theorem LooksUp.ranked (hclosures : closures.Detached) (h : LooksUp closures s s') (hs : s.Acyclic)
    (hrank : s.Ranked rank) : ∃ rank', s'.Ranked rank' := by
  obtain ⟨q, a, ms, hq, h⟩ := h
  obtain ⟨⟨r, d⟩, hq⟩ := Option.isSome_iff_exists.1 hq
  obtain ⟨x, s₁, ms₁, ms₂, hmeet, hconclude, -⟩ := (ends_perform_iff_of_demand hq).1 h
  have hsettles : s.Settles s₁ := hmeet.settles_of_detached hclosures
  have hrank₁ : s₁.Ranked rank := hrank.settles hs hsettles
  rcases conclude_store hconclude with rfl | ⟨r, key, b, hb, rfl⟩
  · exact ⟨rank, hrank₁⟩
  · exact hrank₁.bind (hsettles.acyclic hs) hb

theorem perform_ends (hclosures : closures.Detached) (hhalt : closures.Halt) (hs : s.Acyclic)
    (hrank : s.Ranked rank) {q : Request γ σ} (hq : q.demand?.isSome) :
    ∃ a s' ms, Ends closures (·.perform q) s a s' ms := by
  obtain ⟨⟨r, d⟩, hq⟩ := Option.isSome_iff_exists.1 hq
  obtain ⟨x, s₁, ms₁, hmeet⟩ := meet_ends hclosures hhalt hs hrank r d
  obtain ⟨a, s', ms₂, hconclude⟩ := exists_conclude hq x s₁
  exact ⟨a, s', _, (ends_perform_iff_of_demand hq).2 ⟨x, s₁, ms₁, ms₂, hmeet, hconclude, rfl⟩⟩

end Resolver

/-- Where there is a rank, all requests that ask a registry for anything end with a result, and there is one still in
every store that such requests lead to. -/
theorem resolution_ends {closures : Closures γ σ} (hclosures : closures.Detached) (hhalt : closures.Halt)
    {s : Store γ σ} (hs : s.Reachable) {rank : Registry → String → Nat} (hrank : s.Ranked rank) {s' : Store γ σ}
    (h : ReflTransGen (Resolver.LooksUp closures) s s') :
    (∃ rank', s'.Ranked rank') ∧ ∀ q : Request γ σ, q.demand?.isSome →
      ∃ a s'' ms, Resolver.Ends closures (·.perform q) s' a s'' ms := by
  have hkept : s'.Reachable ∧ ∃ rank', s'.Ranked rank' := by
    induction h with
    | refl => exact ⟨hs, rank, hrank⟩
    | tail _ h ih =>
      obtain ⟨hreach, rank', hrank'⟩ := ih
      exact ⟨h.reachable hreach, h.ranked hclosures hreach.acyclic hrank'⟩
  obtain ⟨hreach, rank', hrank'⟩ := hkept
  exact ⟨⟨rank', hrank'⟩, fun q hq => Resolver.perform_ends hclosures hhalt hreach.acyclic hrank' hq⟩

/-! ### Keys that need each other, in different registries -/

namespace CrossedKeys

open Resolver

def base : Registry := ⟨0, "base"⟩

def app : Registry := ⟨1, "app"⟩

/-- Every closure makes a new instance. -/
def closures : Closures Unit Unit where
  call _ _ := .ask (.newValue .unit) fun v => .done (.ok v)
  construct _ _ := .done (.ok .unit)

theorem detached_closures : closures.Detached where
  call _ _ := ⟨trivial, fun _ => trivial⟩
  construct _ _ := trivial

theorem halt_closures : closures.Halt :=
  Closures.halt_of_isPlain (fun _ _ => ⟨trivial, fun _ => trivial⟩) fun _ _ => trivial

def server : Function Unit := ⟨2, "(port) => 0", ⟨[⟨"port", none⟩]⟩, ()⟩

def port : Function Unit := ⟨3, "(server) => 0", ⟨[⟨"server", none⟩]⟩, ()⟩

/-- The child's port needs the server, which is its parent's and needs the port there. -/
def store : Store Unit Unit :=
  ((((Store.empty ()).bind base "port" (.constant ⟨4, .int 80⟩)).bind base "server" (.provider server true)).bind app
    "port" (.provider port true)).addParent app base

theorem reachable_store : store.Reachable := by
  refine ⟨(), .tail (.tail (.tail (.single ?_) (.bound _ base "server" _)) (.bound _ app "port" _)) (.extended ?_)⟩
  · exact .bound _ base "port" _
  · decide

def rank (r : Registry) (key : String) : Nat :=
  if r = app then 2 else if key = "server" then 1 else 0

theorem ranked_store : store.Ranked rank := by
  intro r key b c j q hb hc hj hq
  simp only [store, Store.binding?_addParent, Store.binding?_bind] at hb
  split at hb
  · rename_i hr
    obtain ⟨rfl, rfl⟩ := hr
    cases hb
    cases hc
    cases List.mem_singleton.1 hj
    have hcandidates : store.candidates "server" app = [base] := rfl
    cases List.mem_singleton.1 (hcandidates ▸ hq)
    decide
  · split at hb
    · rename_i hr
      obtain ⟨rfl, rfl⟩ := hr
      cases hb
      cases hc
      cases List.mem_singleton.1 hj
      have hcandidates : store.candidates "port" base = [base] := rfl
      cases List.mem_singleton.1 (hcandidates ▸ hq)
      decide
    · split at hb
      · cases hb
        cases hc
      · cases hb

/-- A request ends, and another one ends in the store that it leaves. -/
theorem resolution_ends_crossedKeys :
    closures.Detached ∧ closures.Halt ∧ store.Reachable ∧ store.Ranked rank ∧
      ∃ s', LooksUp closures store s' ∧
        ∃ a s'' ms, Ends closures (·.perform (.register app "server" port)) s' a s'' ms := by
  obtain ⟨-, hget⟩ := resolution_ends detached_closures halt_closures reachable_store ranked_store .refl
  obtain ⟨a, s', ms, hport⟩ := hget (.get app "port") rfl
  have hstep : LooksUp closures store s' := ⟨.get app "port", a, ms, rfl, hport⟩
  obtain ⟨-, hregister⟩ := resolution_ends detached_closures halt_closures reachable_store ranked_store (.single hstep)
  exact ⟨detached_closures, halt_closures, reachable_store, ranked_store, s', hstep,
    hregister (.register app "server" port) rfl⟩

end CrossedKeys

end Injection
