import Injection.Error
import Injection.Value.Basic

/-!
# Arguments of a call

The resolved values that a closure receives, in the order of its parameters, with the receiver it may have been
invoked with.
-/

namespace Injection

structure Arguments (γ : Type) where
  receiver : Option (Value γ)
  values : List (Value γ)

namespace Arguments

variable {γ : Type}

def length (a : Arguments γ) : Nat :=
  a.values.length

def value (a : Arguments γ) (index : Nat) : Except InstantiateError (Value γ) :=
  match a.values[index]? with
  | some v => .ok v
  | none => .error (.missingArgument index a.length)

/-- The argument at `index`, if it has the type `t`. -/
def get (a : Arguments γ) (index : Nat) (t : ValueType) : Except InstantiateError (Value γ) := do
  let v ← a.value index
  if v.type = t then return v else throw (.incorrectArgumentType index t v.type)

/-- The receiver, if it has the type `t`. -/
def receiverAs (a : Arguments γ) (t : ValueType) : Except InstantiateError (Value γ) :=
  match a.receiver with
  | none => .error .missingReceiver
  | some v => if v.type = t then .ok v else .error (.incorrectReceiverType t v.type)

end Arguments

end Injection
