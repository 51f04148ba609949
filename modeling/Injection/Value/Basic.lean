import Injection.Signature.Extract
import Injection.Value.Type

/-!
# Values and callables

A value is an instance: data with an identity.  Two values with equal data may be different instances, and only the
identity tells them apart.  Registries and functions have identities too.  A handle carries all that never changes.

What a closure does is not stored here but named by a code of type `γ`; the meaning of codes is given where closures
run.
-/

namespace Injection

/-- A handle to a registry.  What the registry holds changes and is kept in the store. -/
structure Registry where
  id : Nat
  name : String
  deriving DecidableEq, Repr

/-- A closure with its source text, which declares the parameters to inject. -/
structure Function (γ : Type) where
  id : Nat
  source : String
  signature : Signature
  body : γ

/-- A constructor with its source text and the type of the instances it makes. -/
structure Class (γ : Type) where
  source : String
  signature : Signature
  makes : ValueType
  body : γ

/-- A function with the parameters that its source declares. -/
def Function.new (id : Nat) (source : String) (body : γ) : Function γ :=
  ⟨id, source, .extract source, body⟩

/-- A constructor with the parameters that its source declares. -/
def Class.new (source : String) (makes : ValueType) (body : γ) : Class γ :=
  ⟨source, .extract source, makes, body⟩

/-- What an instance holds.  Instances inside it are of type `ν`. -/
inductive Data (γ ν : Type)
  | int (n : Int64)
  | byte (n : UInt8)
  | bool (b : Bool)
  | unit
  | string (s : String)
  | str (s : String)
  | list (elements : List ν)
  | function (f : Function γ)
  | constructible (c : Class γ)
  | registry (r : Registry)
  /-- An instance of an application's own type. -/
  | object (typeName : String) (fields : List ν)

structure Value (γ : Type) where
  id : Nat
  data : Data γ (Value γ)

variable {γ ν : Type}

def Data.type : Data γ ν → ValueType
  | .int _ => .int
  | .byte _ => .byte
  | .bool _ => .bool
  | .unit => .unit
  | .string _ => .string
  | .str _ => .str
  | .list _ => .list
  | .function _ => .function
  | .constructible _ => .constructible
  | .registry _ => .registry
  | .object name _ => .object name

def Value.type (v : Value γ) : ValueType :=
  v.data.type

/-- The same function, not merely an equal one. -/
def Function.same (f g : Function γ) : Bool :=
  f.id == g.id

/-- The same instance, not merely equal data. -/
def Value.same (v w : Value γ) : Bool :=
  v.id == w.id

end Injection
