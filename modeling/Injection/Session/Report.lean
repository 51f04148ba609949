import Injection.Program
import Injection.Table
import Injection.Session.Operation

/-!
# What operations report

An operation reports an outcome or a failure.  The memory of a session holds its tables, its counters and the
reports of the operations that finished inside closures.
-/

namespace Injection.Session

abbrev Instance := Value Body

inductive Failure
  | resolve (e : ResolveError)
  | instantiate (e : InstantiateError)
  | extend (e : ExtendError)
  /-- The table has no such entry. -/
  | unknown (name : String)

def Failure.message : Failure → String
  | .resolve e => e.message
  | .instantiate e => e.message
  | .extend e => e.message
  | .unknown name => "unknown name " ++ name

inductive Outcome
  | nothing
  | bool (b : Bool)
  | bools (bs : List Bool)
  | count (n : Nat)
  | text (s : String)
  | texts (ss : List String)
  | value (v : Instance)
  /-- The binding that was replaced or removed, if there was one. -/
  | binding (b : Option (Binding Body))
  | parameters (s : Signature)
  | constructible (makes : ValueType) (s : Signature)
  /-- What threads got. -/
  | threads (results : List (Except ResolveError Instance))

abbrev Report := Except Failure Outcome

structure Memory where
  registries : Table String Registry
  functions : Table String (Function Body)
  classes : Table String (Class Body)
  values : Table String Instance
  counters : Table String Nat
  /-- The reports of operations run by closures, in the order in which they finished. -/
  finished : List Report

namespace Memory

def empty : Memory :=
  ⟨.empty, .empty, .empty, .empty, .empty, []⟩

def counter (m : Memory) (name : String) : Nat :=
  (m.counters.find? name).getD 0

def tick (m : Memory) (name : String) : Memory :=
  { m with counters := m.counters.insert name (m.counter name + 1) }

def addReport (m : Memory) (r : Report) : Memory :=
  { m with finished := m.finished ++ [r] }

end Memory

/-- A program of a session. -/
abbrev Script := Program Body Memory

namespace Script

def ask (q : Request Body Memory) : Script q.Answer :=
  Program.request q

def memory : Script Memory :=
  ask .readMemory

def modify (f : Memory → Memory) : Script Unit := do
  let m ← memory
  ask (.writeMemory (f m))

/-- The counter, which is then raised by one. -/
def tick (counter : String) : Script Nat := do
  let m ← memory
  ask (.writeMemory (m.tick counter))
  return m.counter counter

end Script

end Injection.Session
