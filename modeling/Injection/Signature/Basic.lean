/-!
# Parameters and signatures
-/

namespace Injection

structure Parameter where
  name : String
  /-- The text of the default value; an empty one and `undefined` do not count. -/
  default : Option String
  deriving DecidableEq, Repr

namespace Parameter

/-- The key the parameter is injected with: its default, or its name if it has none. -/
def key (p : Parameter) : String :=
  p.default.getD p.name

end Parameter

/-- The parameters of a callable or of a constructor, in declared order. -/
structure Signature where
  parameters : List Parameter
  deriving DecidableEq, Repr

namespace Signature

def length (s : Signature) : Nat :=
  s.parameters.length

def isEmpty (s : Signature) : Bool :=
  s.parameters.isEmpty

/-- The first parameter of that name. -/
def get? (s : Signature) (name : String) : Option Parameter :=
  s.parameters.find? (·.name == name)

def names (s : Signature) : List String :=
  s.parameters.map Parameter.name

def keys (s : Signature) : List String :=
  s.parameters.map Parameter.key

end Signature

end Injection
