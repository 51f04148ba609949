import Injection.Value.Type

/-!
# Operations of a session

A session works on tables of registries, functions, classes and values, each known by name, and on counters.  Its
operations are the requests to a registry and some questions; the bodies of functions and classes are small scripts
that can run operations themselves.
-/

namespace Injection.Session

/-- How to make a value. -/
inductive Spec
  | int (n : Int64)
  | byte (n : UInt8)
  | bool (b : Bool)
  | unit
  | string (s : String)
  | str (s : String)
  | list (elements : List Spec)
  | function (name : String)
  | constructible (name : String)
  | registry (name : String)
  | object (typeName : String) (fields : List Spec)
  /-- No new instance but the one in the table. -/
  | stored (name : String)

inductive BindingSpec
  | constant (value : Spec)
  | singleton (value : Spec)
  | transient (name : String)
  | provider (name : String) (cached : Bool)

/-- What a function gives back. -/
inductive Result
  | argument (index : Nat)
  | typedArgument (index : Nat) (t : ValueType)
  /-- The receiver, or a new unit without one. -/
  | receiver
  | receiverAs (t : ValueType)
  | new (value : Spec)
  | arguments
  | sum
  | concat
  | length
  | isEmpty
  | types
  | inspection
  /-- The counter before it is raised by one. -/
  | count (counter : String)

/-- What a constructor makes. -/
inductive Product
  | logger
  | service
  | list
  | sum
  | concat
  deriving DecidableEq, Repr

/-- The type of a session's loggers. -/
def loggerType : String := "oracle_driver::app::Logger"

/-- The type of a session's services. -/
def serviceType : String := "oracle_driver::app::Service"

def Product.type : Product → ValueType
  | .logger => .object loggerType
  | .service => .object serviceType
  | .list => .list
  | .sum => .int
  | .concat => .string

/-- What can be inspected. -/
inductive Subject
  | function (name : String)
  | constructible (name : String)
  | binding (b : BindingSpec)
  | value (v : Spec)

mutual

inductive Operation
  | newRegistry (target name : String)
  | clone (reg target : String)
  | newValue (target : String) (value : Spec)
  | newFunction (target source : String) (body : Body)
  | newClass (target source : String) (makes : Product) (steps : List Step)
  | bind (reg key : String) (b : BindingSpec)
  | has (reg key : String)
  | unbind (reg key : String)
  | constant (reg key : String) (value : Spec)
  | singleton (reg key name : String)
  | transient (reg key name : String)
  | provider (reg key name : String) (cached : Bool)
  | register (reg key name : String)
  | extend (reg parent : String)
  | parents (reg : String)
  | name (reg : String)
  | sameRegistry (reg other : String)
  | sameFunction (name other : String)
  | sameValue (value other : Spec)
  | get (reg key : String) (target : Option String)
  | getAs (reg key : String) (t : ValueType)
  | invoke (reg name : String) (receiver : Option Spec)
  | invokeValue (reg : String) (callee : Spec) (receiver : Option Spec)
  | instantiate (reg name : String)
  | call (name : String) (args : List Spec) (receiver : Option Spec)
  | construct (name : String) (args : List Spec)
  | functionSource (name : String)
  | classSource (name : String)
  | hasType (value : Spec) (t : ValueType)
  | typeNames (value : Spec)
  | sameType (t other : ValueType)
  | inspect (subject : Subject)
  | counter (name : String)
  | getInThreads (reg key : String) (threads : Nat)

/-- A step of a body; the first that fails ends the call. -/
inductive Step
  | get (index : Nat) (t : ValueType)
  | value (index : Nat)
  | receiverAs (t : ValueType)
  | tick (counter : String)
  | fail (message : String)
  /-- Fails while the counter is below `n`. -/
  | failBelow (counter : String) (n : Int) (message : String)
  /-- Runs an operation, whatever comes of it. -/
  | run (o : Operation)
  /-- Runs an operation if the counter is `n`. -/
  | runAt (counter : String) (n : Int) (o : Operation)
  /-- Runs an operation and fails with its error. -/
  | attempt (o : Operation)

/-- The code of a closure. -/
inductive Body
  | function (steps : List Step) (result : Result)
  | constructor (steps : List Step) (makes : Product)

end

end Injection.Session
