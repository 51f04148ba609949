import Injection.Json
import Injection.Session.Run

/-!
# The answers of a session

Reports as JSON.  An instance is written out where it first appears in the answers of a session and numbered by how
many appeared before it; later it is written by its number alone.  It takes its number before the instances inside
it.
-/

namespace Injection.Session

/-! ### Callables and errors -/

def parameterJson (p : Parameter) : Json :=
  .obj [("name", .str p.name), ("default", .orNull .str p.default), ("key", .str p.key)]

def signatureJson (s : Signature) : Json :=
  .arr (s.parameters.map parameterJson)

def functionJson (f : Function Body) : Json :=
  .obj [("source", .str f.source), ("signature", signatureJson f.signature)]

def classJson (c : Class Body) : Json :=
  .obj [("source", .str c.source), ("signature", signatureJson c.signature), ("makes", .str c.makes.name)]

/-- An error by its kind, its message and its own fields. -/
def errorJson (kind message : String) (fields : List (String × Json)) : Json :=
  .obj (("error", .str kind) :: ("message", .str message) :: fields)

def typesJson (expected actual : ValueType) : List (String × Json) :=
  [("expected", .str expected.name), ("actual", .str actual.name)]

def instantiateErrorJson (e : InstantiateError) : Json :=
  match e with
  | .missingArgument index length =>
    errorJson "MissingArgument" e.message [("index", .int index), ("len", .int length)]
  | .incorrectArgumentType index expected actual =>
    errorJson "IncorrectArgumentType" e.message (("index", .int index) :: typesJson expected actual)
  | .missingReceiver => errorJson "MissingThis" e.message []
  | .incorrectReceiverType expected actual =>
    errorJson "IncorrectThisType" e.message (typesJson expected actual)
  | .custom _ => errorJson "Custom" e.message []

def resolveErrorJson (e : ResolveError) : Json :=
  match e with
  | .unregistered key registry ancestors =>
    errorJson "Unregistered" e.message
      [("key", .str key), ("registry", .str registry), ("ancestors", .str ancestors)]
  | .notCallable type => errorJson "NotCallable" e.message [("type", .str type.name)]
  | .incorrectType key expected actual =>
    errorJson "IncorrectType" e.message (("key", .str key) :: typesJson expected actual)
  | .instantiate cause => errorJson "Instantiate" e.message [("cause", instantiateErrorJson cause)]

def failureJson (f : Failure) : Json :=
  match f with
  | .resolve e => resolveErrorJson e
  | .instantiate e => instantiateErrorJson e
  | .extend (.cyclicDelegation registry parent) =>
    errorJson "CyclicDelegation" f.message [("registry", .str registry), ("parent", .str parent)]
  | .unknown _ => errorJson "BadRequest" f.message []

/-! ### Instances without numbers -/

mutual

/-- The type and the data of an instance. -/
def plainJson : Instance → Json
  | ⟨_, data⟩ => .obj [("type", .str data.type.name), ("data", plainData data)]

def plainData : Data Body Instance → Json
  | .int n => .int n.toInt
  | .byte n => .int n.toNat
  | .bool b => .bool b
  | .unit => .null
  | .string s => .str s
  | .str s => .str s
  | .list elements => .arr (plainJsons elements)
  | .function f => functionJson f
  | .constructible c => classJson c
  | .registry r => .str r.name
  | .object _ fields => .arr (plainJsons fields)

def plainJsons : List Instance → List Json
  | [] => []
  | v :: vs => plainJson v :: plainJsons vs

end

/-! ### Instances with numbers -/

/-- The identities of the instances that appeared, the first one first. -/
abbrev Seen := List Nat

mutual

/-- An instance, and what has appeared once it is written. -/
def valueJson (seen : Seen) : Instance → Json × Seen
  | ⟨id, data⟩ =>
    match seen.idxOf? id with
    | some n => (.obj [("id", .int n)], seen)
    | none =>
      let r := dataJson (seen ++ [id]) data
      (.obj [("id", .int seen.length), ("type", .str data.type.name), ("data", r.1)], r.2)

def dataJson (seen : Seen) : Data Body Instance → Json × Seen
  | .list elements =>
    let r := valuesJson seen elements
    (.arr r.1, r.2)
  | .object _ fields =>
    let r := valuesJson seen fields
    (.arr r.1, r.2)
  | .int n => (.int n.toInt, seen)
  | .byte n => (.int n.toNat, seen)
  | .bool b => (.bool b, seen)
  | .unit => (.null, seen)
  | .string s => (.str s, seen)
  | .str s => (.str s, seen)
  | .function f => (functionJson f, seen)
  | .constructible c => (classJson c, seen)
  | .registry r => (.str r.name, seen)

def valuesJson (seen : Seen) : List Instance → List Json × Seen
  | [] => ([], seen)
  | v :: vs =>
    let r := valueJson seen v
    let rs := valuesJson r.2 vs
    (r.1 :: rs.1, rs.2)

end

def bindingJson (seen : Seen) (b : Binding Body) : Json × Seen :=
  match b with
  | .constant v | .singleton v =>
    let r := valueJson seen v
    (.obj [("kind", .str b.kind), ("value", r.1)], r.2)
  | .transient c => (.obj [("kind", .str b.kind), ("class", classJson c)], seen)
  | .provider f cached => (.obj [("kind", .str b.kind), ("fn", functionJson f), ("cache", .bool cached)], seen)

/-! ### Threads -/

def threadJson : Except ResolveError Instance → Json
  | .ok v => .obj [("ok", plainJson v)]
  | .error e => resolveErrorJson e

/-- In the order of their texts, which does not depend on which thread came first. -/
def insertByText (j : Json) : List Json → List Json
  | [] => [j]
  | k :: ks => if k.text < j.text then k :: insertByText j ks else j :: k :: ks

/-- The number of different instances that threads got. -/
def distinctCount (results : List (Except ResolveError Instance)) : Nat :=
  (results.filterMap fun r => r.toOption.map Value.id).eraseDups.length

def threadsJson (results : List (Except ResolveError Instance)) : Json :=
  .obj [("results", .arr ((results.map (threadJson)).foldr insertByText [])),
    ("distinct", .int (distinctCount results))]

/-! ### Reports -/

def outcomeJson (seen : Seen) : Outcome → Json × Seen
  | .nothing => (.null, seen)
  | .bool b => (.bool b, seen)
  | .bools bs => (.arr (bs.map .bool), seen)
  | .count n => (.int n, seen)
  | .text s => (.str s, seen)
  | .texts ss => (.strs ss, seen)
  | .value v => valueJson seen v
  | .binding none => (.null, seen)
  | .binding (some b) => bindingJson seen b
  | .parameters s => (signatureJson s, seen)
  | .constructible makes s => (.obj [("type", .str makes.name), ("signature", signatureJson s)], seen)
  | .threads results => (threadsJson results, seen)

/-- A report with further fields. -/
def reportJson (seen : Seen) (fields : List (String × Json)) : Report → Json × Seen
  | .ok outcome =>
    let r := outcomeJson seen outcome
    (.obj (("ok", r.1) :: fields), r.2)
  | .error f =>
    match failureJson f with
    | .obj own => (.obj (own ++ fields), seen)
    | j => (j, seen)

def innerJson (seen : Seen) : List Report → List Json × Seen
  | [] => ([], seen)
  | r :: rs =>
    let x := reportJson seen [] r
    let xs := innerJson x.2 rs
    (x.1 :: xs.1, xs.2)

/-- A field that is left out if it would be empty. -/
def unlessEmpty (name : String) (js : List Json) : List (String × Json) :=
  if js.isEmpty then [] else [(name, .arr js)]

/-- The answer to one operation; what finished inside closures comes first. -/
def turnJson (logged : Bool) (seen : Seen) (r : Turn) : Json × Seen :=
  let inner := innerJson seen r.inner
  let log := if logged then unlessEmpty "log" (r.log.map .str) else []
  reportJson inner.2 (unlessEmpty "inner" inner.1 ++ log) r.report

def turnsJson (logged : Bool) (seen : Seen) : List Turn → List Json
  | [] => []
  | r :: rs =>
    let x := turnJson logged seen r
    x.1 :: turnsJson logged x.2 rs

/-- The answer of a session that needs at most so many nested steps. -/
def answer (bound : Nat) (logged : Bool) (os : List Operation) : Option Json :=
  (run bound os).map fun ts => .obj [("steps", .arr (turnsJson logged [] ts))]

end Injection.Session
