/-!
# Types of values

The types that values of an application can have.  A type is shown by its full name; its short name is what
follows the last `::`.
-/

namespace Injection

inductive ValueType
  | int
  | byte
  | bool
  | unit
  | string
  | str
  | list
  | function
  | constructible
  | registry
  /-- An application's own type, known by its full name. -/
  | object (name : String)
  deriving DecidableEq, Repr

/-- What follows the last `::`, if there is one. -/
def afterPath? : List Char → Option (List Char)
  | [] => none
  | c :: cs => (afterPath? cs).or (if c = ':' ∧ cs.head? = some ':' then some cs.tail else none)

namespace ValueType

/-- The full name of the type. -/
def name : ValueType → String
  | .int => "i64"
  | .byte => "u8"
  | .bool => "bool"
  | .unit => "()"
  | .string => "alloc::string::String"
  | .str => "&str"
  | .list => "alloc::vec::Vec<paramdi::any::Value>"
  | .function => "paramdi::callable::Function"
  | .constructible => "paramdi::callable::Class"
  | .registry => "paramdi::registry::Registry"
  | .object name => name

def shortName (t : ValueType) : String :=
  String.ofList ((afterPath? t.name.toList).getD t.name.toList)

end ValueType

end Injection
