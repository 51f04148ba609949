import Injection.Value.Type

/-!
# Errors

What can go wrong when a closure runs, when a registry resolves a key and when a registry is extended, with the text
that reports each.
-/

namespace Injection

/-- Why a closure failed. -/
inductive InstantiateError
  | missingArgument (index length : Nat)
  | incorrectArgumentType (index : Nat) (expected actual : ValueType)
  | missingReceiver
  | incorrectReceiverType (expected actual : ValueType)
  | custom (message : String)
  deriving DecidableEq, Repr

/-- Why a registry gave no value. -/
inductive ResolveError
  /-- The key is bound neither in the registry nor in those it inherits from. -/
  | unregistered (key registry ancestors : String)
  | notCallable (type : ValueType)
  | incorrectType (key : String) (expected actual : ValueType)
  | instantiate (cause : InstantiateError)
  deriving DecidableEq, Repr

/-- Why a registry could not be extended. -/
inductive ExtendError
  | cyclicDelegation (registry parent : String)
  deriving DecidableEq, Repr

def InstantiateError.message : InstantiateError → String
  | .missingArgument index length =>
    "Argument " ++ toString index ++ " not passed. Passed arguments: " ++ toString length
  | .incorrectArgumentType index expected actual =>
    "Incorrect argument " ++ toString index ++ " type. Actual: " ++ actual.name ++ ", expected: " ++ expected.name
  | .missingReceiver => "Receiver not bound"
  | .incorrectReceiverType expected actual =>
    "Incorrect receiver type. Actual: " ++ actual.name ++ ", expected: " ++ expected.name
  | .custom message => message

/-- What is added to a message for the registries inherited from, if there are any. -/
def inheritingFrom (ancestors : String) : String :=
  if ancestors = "" then "" else " - inheriting from: " ++ ancestors

def ResolveError.message : ResolveError → String
  | .unregistered key registry ancestors =>
    key ++ " is not registered in registry. Current registry: \"" ++ registry ++ "\"" ++ inheritingFrom ancestors
  | .notCallable type =>
    "Invalid type for invoke: got type \"" ++ type.name ++ "\" requires type \"Function\""
  | .incorrectType key expected actual =>
    "Incorrect type of \"" ++ key ++ "\". Actual: " ++ actual.name ++ ", expected: " ++ expected.name
  | .instantiate cause => cause.message

def ExtendError.message : ExtendError → String
  | .cyclicDelegation registry parent =>
    "Cyclic delegation detected: \"" ++ parent ++ "\" already delegates to \"" ++ registry ++ "\""

end Injection
