import Injection.Resolver
import Injection.Session.Body

/-!
# Sessions

A session runs operations one after the other, each in the store that the one before left.  An operation that fails
does not stop it.
-/

namespace Injection.Session

/-- What one operation of a session left: its report, those of the operations that closures ran meanwhile, and the
lines of the log. -/
structure Turn where
  report : Report
  inner : List Report
  log : List String

/-- The memory once its finished reports have been taken out of it. -/
def Memory.collected (m : Memory) : Memory :=
  { m with finished := [] }

/-- What the operations leave; nothing at all if one needs more nested steps than the bound. -/
def turns (bound : Nat) : List Operation → Store Body Memory → Option (List Turn)
  | [], _ => some []
  | o :: os, s =>
    match o.script.runWithin closures bound s with
    | none => none
    | some (report, s', trace) =>
      (turns bound os { s' with memory := s'.memory.collected }).map fun ts =>
        ⟨report, s'.memory.finished, trace.log⟩ :: ts

/-- A session that starts without registries. -/
def run (bound : Nat) (os : List Operation) : Option (List Turn) :=
  turns bound os (.empty .empty)

end Injection.Session
