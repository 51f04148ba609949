import Injection.Inspect
import Injection.Session.Report

/-!
# The programs of operations

Every operation of a session is a program, which ends with its report.
-/

namespace Injection.Session

open Script

/-- A script that may fail to find a name or be refused by a registry. -/
abbrev Action := ExceptT Failure Script

/-! ### Tables -/

/-- The entry of one of the tables. -/
def entry (table : Memory → Table String α) (name : String) : Action α := do
  match (table (← memory)).find? name with
  | some a => return a
  | none => throw (.unknown name)

def registry (name : String) : Action Registry := entry Memory.registries name

def function (name : String) : Action (Function Body) := entry Memory.functions name

def constructible (name : String) : Action (Class Body) := entry Memory.classes name

/-! ### Values -/

def newInstance (data : Data Body Instance) : Script Instance :=
  ask (.newValue data)

mutual

/-- The instance that a specification asks for. -/
def Spec.make : Spec → Action Instance
  | .int n => newInstance (.int n)
  | .byte n => newInstance (.byte n)
  | .bool b => newInstance (.bool b)
  | .unit => newInstance .unit
  | .string s => newInstance (.string s)
  | .str s => newInstance (.str s)
  | .list elements => do
    let vs ← Spec.makeAll elements
    newInstance (.list vs)
  | .function name => do
    let f ← Session.function name
    newInstance (.function f)
  | .constructible name => do
    let c ← Session.constructible name
    newInstance (.constructible c)
  | .registry name => do
    let r ← Session.registry name
    newInstance (.registry r)
  | .object typeName fields => do
    let vs ← Spec.makeAll fields
    newInstance (.object typeName vs)
  | .stored name => entry Memory.values name

def Spec.makeAll : List Spec → Action (List Instance)
  | [] => return []
  | x :: xs => do
    let v ← Spec.make x
    let vs ← Spec.makeAll xs
    return v :: vs

end

def BindingSpec.make : BindingSpec → Action (Binding Body)
  | .constant value => return .constant (← value.make)
  | .singleton value => return .singleton (← value.make)
  | .transient name => return .transient (← constructible name)
  | .provider name cached => return .provider (← function name) cached

/-! ### Operations -/

/-- The outcome of a request that can be refused. -/
def refusable (failure : ε → Failure) (outcome : α → Outcome) (p : Script (Except ε α)) : Action Outcome := do
  match ← p with
  | .ok a => return outcome a
  | .error e => throw (failure e)

def resolved (p : Script (Except ResolveError Instance)) : Action Outcome :=
  refusable .resolve .value p

def called (p : Script (Except InstantiateError Instance)) : Action Outcome :=
  refusable .instantiate .value p

def Subject.inspect : Subject → Action String
  | .function name => return (← Session.function name).inspect
  | .constructible name => return (← Session.constructible name).inspect
  | .binding b => return (← b.make).inspect
  | .value v => return (← v.make).inspect

def bindTo (reg key : String) (b : Action (Binding Body)) : Action (Option (Binding Body)) := do
  let r ← registry reg
  let b ← b
  ask (.bind r key b)

/-- What an operation does and reports. -/
def Operation.action : Operation → Action Outcome
  | .newRegistry target label => do
    let r ← ask (.newRegistry label)
    modify fun m => { m with registries := m.registries.insert target r }
    return .nothing
  | .clone reg target => do
    let r ← registry reg
    modify fun m => { m with registries := m.registries.insert target r }
    return .nothing
  | .newValue target value => do
    let v ← value.make
    modify fun m => { m with values := m.values.insert target v }
    return .value v
  | .newFunction target source body => do
    let f ← ask (.newFunction source body)
    modify fun m => { m with functions := m.functions.insert target f }
    return .parameters f.signature
  | .newClass target source makes steps => do
    let c := Class.new source makes.type (.constructor steps makes)
    modify fun m => { m with classes := m.classes.insert target c }
    return .constructible c.makes c.signature
  | .bind reg key b => return .binding (← bindTo reg key b.make)
  | .has reg key => do
    let r ← registry reg
    return .bool (← ask (.has r key))
  | .unbind reg key => do
    let r ← registry reg
    return .binding (← ask (.unbind r key))
  | .constant reg key value => do
    let _ ← bindTo reg key do return .constant (← value.make)
    return .nothing
  | .singleton reg key cls => do
    let r ← registry reg
    let c ← constructible cls
    refusable .resolve (fun _ => .nothing) (ask (.singleton r key c))
  | .transient reg key cls => do
    let _ ← bindTo reg key do return .transient (← constructible cls)
    return .nothing
  | .provider reg key fn cached => do
    let _ ← bindTo reg key do return .provider (← function fn) cached
    return .nothing
  | .register reg key fn => do
    let r ← registry reg
    let f ← function fn
    refusable .resolve (fun _ => .nothing) (ask (.register r key f))
  | .extend reg parent => do
    let r ← registry reg
    let p ← registry parent
    refusable .extend (fun _ => .nothing) (ask (.extend r p))
  | .parents reg => do
    let r ← registry reg
    let ps ← ask (.parents r)
    return .texts (ps.map Registry.name)
  | .name reg => do
    let r ← registry reg
    return .text r.name
  | .sameRegistry reg other => return .bool ((← registry reg) == (← registry other))
  | .sameFunction fn other => return .bool ((← function fn).same (← function other))
  | .sameValue value other => do
    let v ← value.make
    let w ← other.make
    return .bool (v.same w)
  | .get reg key target => do
    let r ← registry reg
    match ← ask (.get r key) with
    | .error e => throw (.resolve e)
    | .ok v =>
      match target with
      | some as => modify fun m => { m with values := m.values.insert as v }
      | none => pure ()
      return .value v
  | .getAs reg key t => do
    let r ← registry reg
    resolved (ask (.getAs r key t))
  | .invoke reg fn receiver => do
    let r ← registry reg
    let f ← function fn
    let v ← receiver.mapM Spec.make
    resolved (ask (.invoke r v f))
  | .invokeValue reg callee receiver => do
    let r ← registry reg
    let target ← callee.make
    let v ← receiver.mapM Spec.make
    resolved (ask (.invokeValue r v target))
  | .instantiate reg cls => do
    let r ← registry reg
    let c ← constructible cls
    resolved (ask (.instantiate r c))
  | .call fn args receiver => do
    let f ← function fn
    let values ← Spec.makeAll args
    let v ← receiver.mapM Spec.make
    called (ask (.call f ⟨v, values⟩))
  | .construct cls args => do
    let c ← constructible cls
    let values ← Spec.makeAll args
    called (ask (.construct c ⟨none, values⟩))
  | .functionSource fn => return .text (← function fn).source
  | .classSource cls => return .text (← constructible cls).source
  | .hasType value t => do
    let v ← value.make
    let same := v.type == t
    return .bools [same, same, same]
  | .typeNames value => do
    let v ← value.make
    return .texts [v.type.name, v.type.shortName]
  | .sameType t other => return .bools [t == other, t == other, true]
  | .inspect subject => return .text (← subject.inspect)
  | .counter c => return .count ((← memory).counter c)
  | .getInThreads reg key threads => do
    let r ← registry reg
    let before ← memory
    let results ← ask (.getInThreads r key threads)
    modify fun m => { m with finished := before.finished }
    return .threads results

/-- The program of an operation. -/
def Operation.script (o : Operation) : Script Report :=
  o.action.run

end Injection.Session
