import Injection.Session.Perform

/-!
# The programs of closures

A body performs its steps in order and then gives its result; the first step that fails ends it.
-/

namespace Injection.Session

open Script

/-- A script that fails as a closure does. -/
abbrev Closure := ExceptT InstantiateError Script

def ofExcept (x : Except InstantiateError α) : Closure α :=
  ExceptT.mk (pure x)

/-! ### Steps -/

/-- Runs an operation on behalf of a closure. -/
def Operation.inside (o : Operation) : Script Report := do
  let report ← o.script
  modify (·.addReport report)
  return report

def Step.perform (a : Arguments Body) : Step → Closure Unit
  | .get index t => do
    let _ ← ofExcept (a.get index t)
  | .value index => do
    let _ ← ofExcept (a.value index)
  | .receiverAs t => do
    let _ ← ofExcept (a.receiverAs t)
  | .tick counter => do
    let _ ← Script.tick counter
  | .fail message => throw (.custom message)
  | .failBelow counter n message => do
    let m ← memory
    if m.counter counter < n then throw (.custom message)
  | .run o => do
    let _ ← o.inside
  | .runAt counter n o => do
    let m ← memory
    if m.counter counter = n then
      let _ ← o.inside
  | .attempt o => do
    match ← o.inside with
    | .ok _ => return ()
    | .error f => throw (.custom f.message)

def performAll (a : Arguments Body) : List Step → Closure Unit
  | [] => return ()
  | s :: ss => do
    s.perform a
    performAll a ss

/-! ### Results -/

def intOf : Instance → Int64
  | ⟨_, .int n⟩ => n
  | _ => 0

def stringOf : Instance → String
  | ⟨_, .string s⟩ => s
  | _ => ""

/-- All arguments, each of which has to have the type. -/
def argumentsAs (a : Arguments Body) (t : ValueType) : Except InstantiateError (List Instance) :=
  (List.range a.length).mapM fun i => a.get i t

/-- The sum of the arguments, which wraps around at 64 bits. -/
def sumOf (a : Arguments Body) : Except InstantiateError Int64 := do
  let vs ← argumentsAs a .int
  return vs.foldl (fun n v => n + intOf v) 0

def concatOf (a : Arguments Body) : Except InstantiateError String := do
  let vs ← argumentsAs a .string
  return String.join (vs.map stringOf)

/-- The data that a constructor gives a new instance. -/
def Product.make (a : Arguments Body) : Product → Except InstantiateError (Data Body Instance)
  | .logger => .ok (.object loggerType a.values)
  | .service => .ok (.object serviceType a.values)
  | .list => .ok (.list a.values)
  | .sum => .int <$> sumOf a
  | .concat => .string <$> concatOf a

def makeNew (v : Spec) : Closure Instance :=
  ExceptT.adapt (fun f => .custom f.message) v.make

def Result.make (a : Arguments Body) : Result → Closure Instance
  | .argument index => ofExcept (a.value index)
  | .typedArgument index t => ofExcept (a.get index t)
  | .receiver =>
    match a.receiver with
    | some v => return v
    | none => newInstance .unit
  | .receiverAs t => ofExcept (a.receiverAs t)
  | .new v => makeNew v
  | .arguments => newInstance (.list a.values)
  | .sum => do
    let n ← ofExcept (sumOf a)
    newInstance (.int n)
  | .concat => do
    let s ← ofExcept (concatOf a)
    newInstance (.string s)
  | .length => newInstance (.int (Int64.ofNat a.length))
  | .isEmpty => newInstance (.bool a.values.isEmpty)
  | .types => newInstance (.string (String.intercalate "," (a.values.map fun v => v.type.shortName)))
  | .inspection => newInstance (.string a.inspect)
  | .count counter => do
    let n ← Script.tick counter
    newInstance (.int (Int64.ofNat n))

/-! ### Bodies -/

/-- What the code of a function does. -/
def Body.call (a : Arguments Body) : Body → Closure Instance
  | .function steps result => do
    performAll a steps
    result.make a
  | .constructor steps makes => do
    performAll a steps
    let data ← ofExcept (makes.make a)
    newInstance data

/-- What the code of a constructor does. -/
def Body.construct (a : Arguments Body) : Body → Closure (Data Body Instance)
  | .function steps result => do
    performAll a steps
    return (← result.make a).data
  | .constructor steps makes => do
    performAll a steps
    ofExcept (makes.make a)

/-- The closures of a session. -/
def closures : Closures Body Memory where
  call b a := (b.call a).run
  construct b a := (b.construct a).run

end Injection.Session
