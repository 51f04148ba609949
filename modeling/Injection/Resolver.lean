import Injection.Program
import Injection.Registry.Change

/-!
# Resolution

How a registry finds the value of a key.  A binding of its own decides, be it with an error; otherwise the parents
are searched from the last one added to the first, each with its own parents before the next, and a parent that
fails is skipped.  The parameters of a function or class are resolved in the registry that runs it, in declared
order.

Closures can ask for anything, so resolution need not end.  `Resolver.level n` performs every request that needs
fewer than `n` nested steps; each rule is stated once, over the level below it.
-/

namespace Injection

/-- The outcome of resolving a key. -/
abbrev Resolved (γ : Type) := Except ResolveError (Value γ)

/-- Something that resolves keys and performs requests. -/
structure Resolver (γ σ : Type) where
  resolve : Registry → String → Run γ σ (Resolved γ)
  /-- Nothing is found if neither the registry nor one it inherits from binds the key. -/
  search : Registry → String → Run γ σ (Option (Resolved γ))
  perform : (q : Request γ σ) → Run γ σ q.Answer

variable {γ σ α β ε : Type}

/-- Runs a program with every request performed as given. -/
def Program.run (perform : (q : Request γ σ) → Run γ σ q.Answer) : Program γ σ α → Run γ σ α
  | .done a => return a
  | .ask q next => do
    let x ← perform q
    (next x).run perform

theorem Program.run_bind (perform : (q : Request γ σ) → Run γ σ q.Answer) (p : Program γ σ α)
    (f : α → Program γ σ β) : (p >>= f).run perform = p.run perform >>= fun a => (f a).run perform := by
  induction p with
  | done a => exact (pure_bind (m := Run γ σ) a fun a => (f a).run perform).symm
  | ask q next ih =>
    change (perform q >>= fun x => (next x >>= f).run perform) =
      (perform q >>= fun x => (next x).run perform) >>= fun a => (f a).run perform
    rw [bind_assoc]
    exact congrArg (perform q >>= ·) (funext ih)

namespace Run

/-- Reports the error of a run, if it has one. -/
def reporting (m : Run γ σ (Except ResolveError α)) : Run γ σ (Except ResolveError α) := do
  match ← m with
  | .ok a => return .ok a
  | .error e =>
    log (.reported e.message)
    return .error e

/-- The message of an error, if there is one. -/
def failure (message : ε → String) : Except ε α → Option String
  | .ok _ => none
  | .error e => some (message e)

/-- A run that counts as one request to a registry. -/
def asCall (c : Call) (message : ε → String) (m : Run γ σ (Except ε α)) : Run γ σ (Except ε α) :=
  between (.began c) m fun x => .ended c (failure message x)

/-- The results of a number of runs, one after the other.  Steps of several threads that interleave are those of
`Threads.Runs` and `Machine.Runs`. -/
def times (m : Run γ σ α) : Nat → Run γ σ (List α)
  | 0 => return []
  | n + 1 => do
    let a ← m
    let as ← times m n
    return a :: as

end Run

namespace Resolver

open Run

variable (closures : Closures γ σ) (low : Resolver γ σ)

/-! ### Closures -/

/-- Resolves keys in order, up to the first that fails. -/
def resolveAll (r : Registry) : List String → Run γ σ (Except ResolveError (List (Value γ)))
  | [] => return .ok []
  | key :: keys => do
    match ← low.resolve r key with
    | .error e => return .error e
    | .ok v =>
      match ← resolveAll r keys with
      | .error e => return .error e
      | .ok vs => return .ok (v :: vs)

def runFunction (f : Function γ) (a : Arguments γ) : Run γ σ (Except InstantiateError (Value γ)) :=
  between (.called (.function f) a) ((closures.call f.body a).run low.perform) (.returned (.function f))

def runConstructor (c : Class γ) (a : Arguments γ) : Run γ σ (Except InstantiateError (Value γ)) :=
  between (.called (.constructible c) a)
    (do
      match ← (closures.construct c.body a).run low.perform with
      | .error e => return .error e
      | .ok data =>
        let v ← newValue data
        return .ok v)
    (.returned (.constructible c))

/-- What is made of a closure's result: its event is logged and its error becomes one of resolution. -/
def finish (success : Event) : Except InstantiateError (Value γ) → Run γ σ (Resolved γ)
  | .ok v => do
    log success
    return .ok v
  | .error e => do
    log (.failed e.message)
    return .error (.instantiate e)

/-- Runs a function with its parameters resolved in the registry. -/
def call (r : Registry) (receiver : Option (Value γ)) (f : Function γ) : Run γ σ (Resolved γ) :=
  inside (.invoke r.name) do
    match ← resolveAll low r f.signature.keys with
    | .error e => return .error e
    | .ok values =>
      let result ← runFunction closures low f ⟨receiver, values⟩
      finish .invoked result

/-- Makes an instance of a class with the parameters of its constructor resolved in the registry. -/
def construct (r : Registry) (c : Class γ) : Run γ σ (Resolved γ) :=
  inside (.instantiate c.makes.shortName r.name) do
    match ← resolveAll low r c.signature.keys with
    | .error e => return .error e
    | .ok values =>
      let result ← runConstructor closures low c ⟨none, values⟩
      finish .instantiated result

/-! ### Keys -/

/-- Runs the provider of a key. -/
def provide (r : Registry) (key : String) (f : Function γ) : Run γ σ (Resolved γ) := do
  match ← call closures low r none f with
  | .error e => return .error e
  | .ok v =>
    mark (.provided r key f v)
    return .ok v

/-- Runs the provider of a key and keeps the value it gives.  The key is not looked up again under the lock, since in a
run nothing has happened since it was found to be bound to the provider (`provideLocked_apply`).  With other threads
around something may have, and `Machine.afterRereading` tells what comes of it. -/
def provideOnce (r : Registry) (key : String) (f : Function γ) : Run γ σ (Resolved γ) :=
  between (.locked r)
    (do
      match ← provide closures low r key f with
      | .error e => return .error e
      | .ok v =>
        memoize r key f v
        return .ok v)
    fun _ => .unlocked r

def resolveBinding (r : Registry) (key : String) : Binding γ → Run γ σ (Resolved γ)
  | .constant v => do
    log .found
    return .ok v
  | .singleton v => do
    log .found
    return .ok v
  | .transient c => construct closures low r c
  | .provider f true => provideOnce closures low r key f
  | .provider f false => provide closures low r key f

/-- The first registry in the list to give the key a value. -/
def searchParents (key : String) : List Registry → Run γ σ (Option (Resolved γ))
  | [] => return none
  | p :: ps => do
    match ← low.search p key with
    | some (.ok v) =>
      log (.foundInParent p.name)
      return some (.ok v)
    | some (.error e) =>
      log (.parentFailed p.name e.message)
      searchParents key ps
    | none => searchParents key ps

/-- Searches a registry and those it inherits from. -/
def searchFrom (r : Registry) (key : String) : Run γ σ (Option (Resolved γ)) :=
  between (.searching r key)
    (do
      match ← read (Store.binding? · r key) with
      | some b =>
        let x ← resolveBinding closures low r key b
        return some x
      | none =>
        let parents ← read (Store.parents · r)
        searchParents low key parents.reverse)
    (.searched r key)

def resolveKey (r : Registry) (key : String) : Run γ σ (Resolved γ) :=
  inside (.get key r.name) do
    match ← low.search r key with
    | some x => return x
    | none =>
      let ancestors ← read (Store.ancestors · r)
      let e := ResolveError.unregistered key r.name ancestors
      log (.failed e.message)
      return .error e

/-! ### Requests -/

def get (r : Registry) (key : String) : Run γ σ (Resolved γ) :=
  reporting (low.resolve r key)

def getAs (r : Registry) (key : String) (t : ValueType) : Run γ σ (Resolved γ) := do
  match ← get low r key with
  | .error e => return .error e
  | .ok v => reporting (return if v.type = t then .ok v else .error (.incorrectType key t v.type))

def invoke (r : Registry) (receiver : Option (Value γ)) (f : Function γ) : Run γ σ (Resolved γ) :=
  reporting (call closures low r receiver f)

def invokeValue (r : Registry) (receiver : Option (Value γ)) (target : Value γ) : Run γ σ (Resolved γ) :=
  match target.data with
  | .function f => invoke closures low r receiver f
  | _ => reporting (return .error (.notCallable target.type))

def instantiate (r : Registry) (c : Class γ) : Run γ σ (Resolved γ) :=
  reporting (construct closures low r c)

/-- Binds the value of a run, if it gives one. -/
def bindResult (r : Registry) (key : String) (kind : Value γ → Binding γ) (m : Run γ σ (Resolved γ)) :
    Run γ σ (Except ResolveError Unit) := do
  match ← m with
  | .error e => return .error e
  | .ok v =>
    let _ ← bindKey r key (kind v)
    return .ok ()

/-- The runs that answer requests. -/
def performWith : (q : Request γ σ) → Run γ σ q.Answer
  | .newRegistry name => newRegistry name
  | .newFunction source body => newFunction source body
  | .newValue data => newValue data
  | .readMemory => read Store.memory
  | .writeMemory memory => change ({ · with memory })
  | .parents r => read (Store.parents · r)
  | .has r key => read fun s => (s.binding? r key).isSome
  | .bind r key b => bindKey r key b
  | .unbind r key => unbindKey r key
  | .extend r parent => asCall .extend ExtendError.message (extend r parent)
  | .get r key => asCall .get ResolveError.message (get low r key)
  | .getAs r key t => asCall .getAs ResolveError.message (getAs low r key t)
  | .invoke r receiver f => asCall .invoke ResolveError.message (invoke closures low r receiver f)
  | .invokeValue r receiver target =>
    asCall .invokeValue ResolveError.message (invokeValue closures low r receiver target)
  | .instantiate r c => asCall .instantiate ResolveError.message (instantiate closures low r c)
  | .singleton r key c =>
    asCall .singleton ResolveError.message (bindResult r key .singleton (instantiate closures low r c))
  | .register r key f =>
    asCall .register ResolveError.message (bindResult r key .constant (invoke closures low r none f))
  | .call f a => runFunction closures low f a
  | .construct c a => runConstructor closures low c a
  | .getInThreads r key threads =>
    between .forked (times (asCall .get ResolveError.message (get low r key)) threads) fun _ => .joined

/-- Performs what needs fewer than so many nested steps. -/
def level : Nat → Resolver γ σ
  | 0 =>
    { resolve := fun _ _ => outOfBound
      search := fun _ _ => outOfBound
      perform := fun _ => outOfBound }
  | n + 1 =>
    { resolve := fun r key => resolveKey (level n) r key
      search := fun r key => searchFrom closures (level n) r key
      perform := fun q => performWith closures (level n) q }

end Resolver

/-- The run of a program with at most so many nested steps. -/
def Program.runWithin (closures : Closures γ σ) (bound : Nat) (p : Program γ σ α) : Run γ σ α :=
  p.run (Resolver.level closures bound).perform

end Injection
