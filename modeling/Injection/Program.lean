import Injection.Arguments
import Injection.Binding

/-!
# Programs

What a closure, or the user of a registry, does is a program: a tree of requests, each with a continuation for every
answer it may get.  A program does nothing by itself; it is run by something that can perform requests.

Closures are known by codes, and `Closures` gives a code its program, so nothing is assumed of what closures do.
-/

namespace Injection

/-- What a program can ask for. -/
inductive Request (γ σ : Type)
  | newRegistry (name : String)
  | newFunction (source : String) (body : γ)
  | newValue (data : Data γ (Value γ))
  /-- What closures remember. -/
  | readMemory
  | writeMemory (memory : σ)
  | parents (r : Registry)
  | has (r : Registry) (key : String)
  | bind (r : Registry) (key : String) (b : Binding γ)
  | unbind (r : Registry) (key : String)
  | extend (r parent : Registry)
  | get (r : Registry) (key : String)
  | getAs (r : Registry) (key : String) (t : ValueType)
  | invoke (r : Registry) (receiver : Option (Value γ)) (f : Function γ)
  | invokeValue (r : Registry) (receiver : Option (Value γ)) (target : Value γ)
  | instantiate (r : Registry) (c : Class γ)
  | singleton (r : Registry) (key : String) (c : Class γ)
  | register (r : Registry) (key : String) (f : Function γ)
  /-- Runs a function with arguments at hand; no registry takes part. -/
  | call (f : Function γ) (a : Arguments γ)
  | construct (c : Class γ) (a : Arguments γ)
  /-- Gets the key in that many threads.  A run has them one after the other; for steps that interleave there is
  `Threads.Runs`. -/
  | getInThreads (r : Registry) (key : String) (threads : Nat)

/-- The answer to a request. -/
abbrev Request.Answer {γ σ : Type} : Request γ σ → Type
  | .newRegistry _ => Registry
  | .newFunction _ _ => Function γ
  | .newValue _ => Value γ
  | .readMemory => σ
  | .writeMemory _ => Unit
  | .parents _ => List Registry
  | .has _ _ => Bool
  | .bind _ _ _ => Option (Binding γ)
  | .unbind _ _ => Option (Binding γ)
  | .extend _ _ => Except ExtendError Unit
  | .get _ _ => Except ResolveError (Value γ)
  | .getAs _ _ _ => Except ResolveError (Value γ)
  | .invoke _ _ _ => Except ResolveError (Value γ)
  | .invokeValue _ _ _ => Except ResolveError (Value γ)
  | .instantiate _ _ => Except ResolveError (Value γ)
  | .singleton _ _ _ => Except ResolveError Unit
  | .register _ _ _ => Except ResolveError Unit
  | .call _ _ => Except InstantiateError (Value γ)
  | .construct _ _ => Except InstantiateError (Value γ)
  | .getInThreads _ _ _ => List (Except ResolveError (Value γ))

inductive Program (γ σ α : Type)
  | done (a : α)
  | ask (q : Request γ σ) (next : q.Answer → Program γ σ α)

namespace Program

variable {γ σ α β : Type}

def andThen (p : Program γ σ α) (f : α → Program γ σ β) : Program γ σ β :=
  match p with
  | .done a => f a
  | .ask q next => .ask q fun x => (next x).andThen f

instance : Monad (Program γ σ) where
  pure := .done
  bind := andThen

instance : LawfulMonad (Program γ σ) := LawfulMonad.mk' _
  (fun p => by
    induction p with
    | done a => rfl
    | ask q next ih => exact congrArg (ask q) (funext ih))
  (fun _ _ => rfl)
  (fun p f g => by
    induction p with
    | done a => rfl
    | ask q next ih => exact congrArg (ask q) (funext ih))

/-- The program that asks one thing and gives its answer. -/
def request (q : Request γ σ) : Program γ σ q.Answer :=
  .ask q .done

end Program

/-- What the codes of closures stand for. -/
structure Closures (γ σ : Type) where
  /-- A function gives an instance, a new one or one it was given. -/
  call : γ → Arguments γ → Program γ σ (Except InstantiateError (Value γ))
  /-- A constructor gives the data of a new instance. -/
  construct : γ → Arguments γ → Program γ σ (Except InstantiateError (Data γ (Value γ)))

end Injection
