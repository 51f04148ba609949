import Injection.Proofs.Resolver.During

/-!
# Errors are reported once

A call of a registry that fails logs its error at the error level as the last thing that it does, and nothing else logs
at that level: the failures of parameters and of skipped parents, which the caller may still make up for, are debug
events.

A trace can be checked for that by reading it once (`Audit.read`).  The auditor keeps the calls under way, each with
the spans that were open when it began, and the open spans.  A span may only be left if it is the innermost one, and a
call may only end with the spans that it began with and, if it fails, right after the report of its error, which nothing
but the end of a call may follow.  Every run leaves the auditor as it found him (`Effect.audited`), so this can be
read off the whole trace of a program (`Program.errors_reported_once`).
-/

namespace Injection

open Run Resolver

variable {γ σ α : Type}

/-! ### Open spans -/

namespace Trace

/-- The spans that are open after the trace, the innermost first, if these are open before it. -/
def openSpans (spans : List Span) : Trace γ → List Span
  | [] => spans
  | .entered s :: ms => openSpans (s :: spans) ms
  | .left _ :: ms => openSpans spans.tail ms
  | _ :: ms => openSpans spans ms

theorem openSpans_append (spans : List Span) (ms ms' : Trace γ) :
    openSpans spans (ms ++ ms') = openSpans (openSpans spans ms) ms' := by
  induction ms generalizing spans with
  | nil => rfl
  | cons m ms ih => cases m <;> exact ih _

/-- The lines of a trace are those of its parts, each inside the spans that are open before it. -/
theorem lines_append (spans : List Span) (ms ms' : Trace γ) :
    lines spans (ms ++ ms') = lines spans ms ++ lines (openSpans spans ms) ms' := by
  induction ms generalizing spans with
  | nil => rfl
  | cons m ms ih => cases m <;> simp [lines, openSpans, ih]

end Trace

/-- Reports are the only events of their level. -/
theorem Event.eq_reported_of_level {e : Event} (h : e.level = .error) : ∃ message, e = .reported message := by
  cases e <;> cases h
  exact ⟨_, rfl⟩

/-! ### Reading a trace -/

/-- What is known at some point of a trace. -/
structure Audit where
  /-- The calls under way, the innermost first, each with the spans that were open when it began. -/
  calls : List (Call × List Span)
  spans : List Span
  /-- The error that was reported last, if its call has not ended since. -/
  reported : Option String
  deriving DecidableEq

namespace Audit

/-- Where no error waits for the end of its call, all marks but the ends of calls are allowed, unless they leave a span
that is not the innermost one. -/
def proceed (a : Audit) : Mark γ → Option Audit
  | .entered s => some { a with spans := s :: a.spans }
  | .left s => if a.spans.head? = some s then some { a with spans := a.spans.tail } else none
  | .began c => some { a with calls := (c, a.spans) :: a.calls }
  | .logged e => some (if e.level = .error then { a with reported := some e.text } else a)
  | _ => some a

/-- A call ends with the spans that it began with, and fails if and only if its error has just been reported. -/
def read (a : Audit) : Mark γ → Option Audit
  | .ended c x =>
    if a.calls.head? = some (c, a.spans) ∧ x = a.reported then some ⟨a.calls.tail, a.spans, none⟩ else none
  | m => if a.reported.isSome then none else a.proceed m

/-- Reads a trace to its end, if it is in order. -/
def readAll (a : Audit) (ms : Trace γ) : Option Audit :=
  ms.foldlM read a

variable {a a' a'' : Audit} {m : Mark γ} {ms ms' : Trace γ}

theorem readAll_append_eq_some :
    a.readAll (ms ++ ms') = some a'' ↔ ∃ a', a.readAll ms = some a' ∧ a'.readAll ms' = some a'' := by
  unfold readAll
  rw [List.foldlM_append]
  exact Option.bind_eq_some_iff

theorem readAll_cons_eq_some :
    a.readAll (m :: ms) = some a'' ↔ ∃ a', a.read m = some a' ∧ a'.readAll ms = some a'' := by
  unfold readAll
  rw [List.foldlM_cons]
  exact Option.bind_eq_some_iff

theorem readAll_singleton : a.readAll [m] = a.read m := by
  simp [readAll]

theorem spans_of_read (h : a.read m = some a') : a'.spans = Trace.openSpans a.spans [m] := by
  unfold read proceed at h
  grind [Trace.openSpans]

/-- The auditor has seen every span. -/
theorem spans_of_readAll (h : a.readAll ms = some a') : a'.spans = ms.openSpans a.spans := by
  induction ms generalizing a with
  | nil =>
    cases h
    rfl
  | cons m ms ih =>
    obtain ⟨a₁, h₁, h⟩ := readAll_cons_eq_some.1 h
    rw [ih h, spans_of_read h₁]
    cases m <;> rfl

/-- Only the end of its call follows the report of an error. -/
theorem eq_ended_of_read (h : a.read m = some a') {message : String} (ha : a.reported = some message) :
    ∃ c, m = .ended c (some message) := by
  unfold read at h
  grind

theorem reported_of_read_logged {e : Event} (h : a.read (.logged e : Mark γ) = some a') (he : e.level = .error) :
    a'.reported = some e.text := by
  obtain ⟨-, rfl⟩ : a.reported = none ∧ { a with reported := some e.text } = a' := by
    simpa [read, proceed, he] using h
  rfl

theorem reported_of_read_ended {c : Call} {x : Option String} (h : a.read (.ended c x : Mark γ) = some a') :
    a.reported = x := by
  obtain ⟨⟨-, hx⟩, -⟩ : (a.calls.head? = some (c, a.spans) ∧ x = a.reported) ∧ _ := by simpa [read] using h
  exact hx.symm

/-- Only the report of an error leaves an error reported. -/
theorem eq_logged_of_read (h : a.read m = some a') {message : String} (ha : a'.reported = some message) :
    m = .logged (.reported message) := by
  cases m with
  | ended c x =>
    obtain ⟨-, rfl⟩ : _ ∧ Audit.mk a.calls.tail a.spans none = a' := by simpa [read] using h
    cases ha
  | logged e =>
    obtain ⟨hr, rfl⟩ : a.reported = none ∧
        (if e.level = .error then { a with reported := some e.text } else a) = a' := by
      simpa [read, proceed] using h
    by_cases he : e.level = .error
    · rw [if_pos he] at ha
      obtain ⟨text, rfl⟩ := Event.eq_reported_of_level he
      cases ha
      rfl
    · rw [if_neg he, hr] at ha
      cases ha
  | _ => grind [read, proceed]

end Audit

/-! ### Every run is in order -/

/-- The trace leaves the auditor as it found him. -/
def Effect.audited (_ _ : Store γ σ) (ms : Trace γ) : Prop :=
  ∀ a : Audit, a.reported = none → a.readAll ms = some a

namespace Effect

private theorem audited_single {m : Mark γ} (hm : ∀ a : Audit, a.reported = none → a.read m = some a)
    (s s' : Store γ σ) : Effect.audited s s' [m] :=
  fun a ha => Audit.readAll_singleton.trans (hm a ha)

private theorem readAll_around {a a₁ : Audit} {first last : Mark γ} {ms : Trace γ} (hfirst : a.read first = some a₁)
    (h : a₁.readAll ms = some a₁) (hlast : a₁.read last = some a) : a.readAll (first :: (ms ++ [last])) = some a :=
  Audit.readAll_cons_eq_some.2 ⟨a₁, hfirst, Audit.readAll_append_eq_some.2
    ⟨a₁, h, Audit.readAll_singleton.trans hlast⟩⟩

theorem audited_law : Effect.ActivityLaw (Effect.audited (γ := γ) (σ := σ)) where
  refl _ _ _ := rfl
  trans h h' a ha := Audit.readAll_append_eq_some.2 ⟨a, h a ha, h' a ha⟩
  event _ e he := audited_single (fun a ha => by simp [Audit.read, Audit.proceed, ha, he]) _ _
  skip _ _ _ := rfl
  remember _ _ _ _ := rfl
  bind _ _ _ _ := audited_single (fun a ha => by simp [Audit.read, Audit.proceed, ha]) _ _
  unbind _ _ _ := audited_single (fun a ha => by simp [Audit.read, Audit.proceed, ha]) _ _
  extend _ := audited_single (fun a ha => by simp [Audit.read, Audit.proceed, ha]) _ _
  around hm h := by
    rintro ⟨calls, spans, _⟩ rfl
    cases hm with
    | span s => exact readAll_around rfl (h ⟨calls, s :: spans, none⟩ rfl) (by simp [Audit.read, Audit.proceed])
    | lock r => exact readAll_around rfl (h _ rfl) rfl
    | closure c a x => exact readAll_around rfl (h _ rfl) rfl
    | threads => exact readAll_around rfl (h _ rfl) rfl
  calling c failure h := by
    rintro ⟨calls, spans, _⟩ rfl
    have hbegan := h ⟨(c, spans) :: calls, spans, none⟩ rfl
    have hreport : (Audit.mk ((c, spans) :: calls) spans none).readAll (Trace.report failure : Trace γ) =
        some ⟨(c, spans) :: calls, spans, failure⟩ := by
      cases failure <;> rfl
    have hended : (Audit.mk ((c, spans) :: calls) spans failure).readAll ([.ended c failure] : Trace γ) =
        some ⟨calls, spans, none⟩ := by
      simp [Audit.readAll, Audit.read]
    exact Audit.readAll_cons_eq_some.2 ⟨_, rfl, Audit.readAll_append_eq_some.2
      ⟨_, Audit.readAll_append_eq_some.2 ⟨_, hbegan, hreport⟩, hended⟩⟩

theorem audited_searchLaw (r : Registry) (key : String) :
    Effect.SearchLaw (Effect.audited (γ := γ) (σ := σ)) r key where
  searching _ := audited_single (fun a ha => by simp [Audit.read, Audit.proceed, ha]) _ _
  searched _ _ := audited_single (fun a ha => by simp [Audit.read, Audit.proceed, ha]) _ _
  provided _ _ _ := audited_single (fun a ha => by simp [Audit.read, Audit.proceed, ha]) _ _
  memoized _ _ _ := audited_single (fun a ha => by simp [Audit.read, Audit.proceed, ha]) _ _

end Effect

theorem Resolver.level_audited (closures : Closures γ σ) (n : Nat) : (level closures n).Keep Effect.audited :=
  Effect.audited_law.level_keeps_of_searchLaw Effect.audited_searchLaw closures n

/-- The trace of a call that gives this answer, from that of what happens before its failure is reported. -/
def Request.trace (q : Request γ σ) (a : q.Answer) (inner : Trace γ) : Trace γ :=
  .began q.name :: (inner ++ Trace.report (q.failure a) ++ [.ended q.name (q.failure a)])

/-- A call reports its error, if it fails, and then it ends. -/
theorem Activity.Ends.eq_trace {closures : Closures γ σ} {s s' : Store γ σ} {ms : Trace γ} {q : Request γ σ}
    {a : q.Answer} (hq : q.IsCall) (h : (Activity.request q).Ends closures s a s' ms) :
    ∃ inner, Effect.audited s s' inner ∧ ms = q.trace a inner := by
  obtain ⟨n, h⟩ := ends_perform_iff.1 h
  have hn := level_audited closures n
  exact Effect.audited_law.performWith_of_isCall hn.resolve hn.perform hq h

/-! ### The log of a program -/

namespace Trace

variable {ms pre post : Trace γ}

theorem openSpans_of_audited (h : ∀ a : Audit, a.reported = none → a.readAll ms = some a) (spans : List Span) :
    ms.openSpans spans = spans :=
  (Audit.spans_of_readAll (h ⟨[], spans, none⟩ rfl)).symm

/-- Nothing but the end of a failing call follows an event of the error level. -/
theorem ended_of_audited (h : ∀ a : Audit, a.reported = none → a.readAll ms = some a) {e : Event}
    (hms : ms = pre ++ .logged e :: post) (he : e.level = .error) :
    ∃ c message post', e = .reported message ∧ post = .ended c (some message) :: post' := by
  subst hms
  obtain ⟨a₁, -, h₁⟩ := Audit.readAll_append_eq_some.1 (h ⟨[], [], none⟩ rfl)
  obtain ⟨a₂, h₂, hpost⟩ := Audit.readAll_cons_eq_some.1 h₁
  have ha₂ := Audit.reported_of_read_logged h₂ he
  obtain ⟨message, rfl⟩ := Event.eq_reported_of_level he
  cases post with
  | nil =>
    cases hpost
    cases ha₂
  | cons m post =>
    obtain ⟨a₃, h₃, -⟩ := Audit.readAll_cons_eq_some.1 hpost
    obtain ⟨c, rfl⟩ := Audit.eq_ended_of_read h₃ ha₂
    exact ⟨c, message, post, rfl, rfl⟩

/-- A call that fails ends right after the report of its error. -/
theorem reported_of_audited (h : ∀ a : Audit, a.reported = none → a.readAll ms = some a) {c : Call} {message : String}
    (hms : ms = pre ++ .ended c (some message) :: post) : ∃ pre', pre = pre' ++ [.logged (.reported message)] := by
  subst hms
  obtain ⟨a₁, hpre, h₁⟩ := Audit.readAll_append_eq_some.1 (h ⟨[], [], none⟩ rfl)
  obtain ⟨a₂, h₂, -⟩ := Audit.readAll_cons_eq_some.1 h₁
  have ha₁ : a₁.reported = some message := Audit.reported_of_read_ended h₂
  rcases List.eq_nil_or_concat' pre with rfl | ⟨pre, m, rfl⟩
  · cases hpre
    cases ha₁
  · obtain ⟨a₀, -, h₀⟩ := Audit.readAll_append_eq_some.1 hpre
    rw [Audit.readAll_singleton] at h₀
    exact ⟨pre, by rw [Audit.eq_logged_of_read h₀ ha₁]⟩

end Trace

/-- A call leaves the open spans as they are, and its error, if it gives one, is the last line that it logs. -/
theorem Request.lines_trace {q : Request γ σ} {inner : Trace γ}
    (h : ∀ a : Audit, a.reported = none → a.readAll inner = some a) (x : q.Answer) (spans : List Span) :
    (q.trace x inner).openSpans spans = spans ∧ (q.trace x inner).lines spans =
      inner.lines spans ++ (q.failure x).toList.map fun message => Event.line spans (.reported message) := by
  have hinner := Trace.openSpans_of_audited h spans
  unfold trace
  constructor
  · cases q.failure x <;> simp [Trace.openSpans, Trace.openSpans_append, Trace.report, hinner]
  · cases q.failure x <;> simp [Trace.lines, Trace.lines_append, Trace.report, hinner]

/-- What the trace of a program tells of errors. -/
structure Program.ReportsErrors (closures : Closures γ σ) (p : Program γ σ α) (s : Store γ σ) (ms : Trace γ) :
    Prop where
  /-- An event of the error level reports the error of a call that ends right after it. -/
  reported : ∀ {pre post e}, ms = pre ++ .logged e :: post → e.level = .error →
    ∃ c message post', e = .reported message ∧ post = .ended c (some message) :: post'
  /-- A call that fails ends right after the report of its error. -/
  failed : ∀ {pre post c message}, ms = pre ++ .ended c (some message) :: post →
    ∃ pre', pre = pre' ++ [.logged (.reported message)]
  /-- Whatever spans are open when a call begins, they are open when it ends, and if it gives an error, then the text of
  that error inside of these spans is the last line that it logs. -/
  call : ∀ {pre q s₁}, q.IsCall → p.During closures s pre (.request q) s₁ → ∃ a s₂ inner post,
    (Activity.request q).Ends closures s₁ a s₂ (q.trace a inner) ∧ ms = pre ++ q.trace a inner ++ post ∧
      ∀ spans, (q.trace a inner).openSpans spans = spans ∧ (q.trace a inner).lines spans =
        inner.lines spans ++ (q.failure a).toList.map fun message => Event.line spans (.reported message)
  /-- Calls and spans nest in the trace, and none is left open. -/
  nested : ∀ calls spans, (Audit.mk calls spans none).readAll ms = some ⟨calls, spans, none⟩

/-- In the trace of a run, whatever its closures do, errors are reported once, by the calls that give them. -/
theorem Program.errors_reported_once {closures : Closures γ σ} {p : Program γ σ α} {n : Nat} {s s' : Store γ σ} {a : α}
    {ms : Trace γ} (h : p.runWithin closures n s = some (a, s', ms)) : p.ReportsErrors closures s ms := by
  have hms : Effect.audited s s' ms := Effect.audited_law.program (level_audited closures n).perform p h
  exact {
    reported := fun hpost he => Trace.ended_of_audited hms hpost he
    failed := fun hpost => Trace.reported_of_audited hms hpost
    call := by
      intro pre q s₁ hq hduring
      obtain ⟨x, s₂, ms', post, hends, -, rfl⟩ := hduring.partOf h
      obtain ⟨inner, hinner, rfl⟩ := hends.eq_trace hq
      exact ⟨x, s₂, inner, post, hends, rfl, fun spans => Request.lines_trace hinner x spans⟩
    nested := fun calls spans => hms ⟨calls, spans, none⟩ rfl }

/-! A provider in a parent makes a call that fails, and then fails and is skipped; so does the search for its key. -/

namespace FailsInside

def base : Registry := ⟨0, "base"⟩

def app : Registry := ⟨1, "app"⟩

def provider : Function Unit := ⟨2, "() => 0", ⟨[]⟩, ()⟩

/-- The provider gets a key that nothing binds and then gives up. -/
def closures : Closures Unit Unit where
  call _ _ := .ask (.get base "missing") fun _ => .done (.error (.custom "no value"))
  construct _ _ := .done (.error (.custom "no instance"))

def store : Store Unit Unit :=
  ((Store.empty ()).addParent app base).bind base "k" (.provider provider true)

theorem run_fails : ((Program.request (.get app "k")).runWithin closures 8 store).map
    (fun x => failure ResolveError.message x.1) =
      some (some (ResolveError.unregistered "k" "app" "[\"base\"]").message) := by
  decide +kernel

theorem errors_reported_once_parent : ∃ a s' ms,
    (Program.request (.get app "k")).runWithin closures 8 store = some (a, s', ms) ∧
      failure ResolveError.message a = some (ResolveError.unregistered "k" "app" "[\"base\"]").message ∧
      (Program.request (.get app "k")).ReportsErrors closures store ms := by
  obtain ⟨⟨a, s', ms⟩, h, hfails⟩ := Option.map_eq_some_iff.1 run_fails
  exact ⟨a, s', ms, h, hfails, Program.errors_reported_once h⟩

/-- Two calls fail, so two of the events are reports. -/
example : ((Program.request (.get app "k")).runWithin closures 8 store).map
    (fun x => x.2.2.filterMap fun | .logged e => some e.level | _ => none) =
      some [.debug, .error, .debug, .debug, .debug, .error] := by
  decide +kernel

end FailsInside

end Injection
