import Injection.Arguments
import Injection.Binding
import Injection.Text.Quoted

/-!
# Texts for inspection

Values show their type only; callables show their signature.
-/

namespace Injection

/-- Items between brackets. -/
def bracketed (items : List String) : String :=
  "[" ++ String.intercalate ", " items ++ "]"

/-- A name with fields between braces. -/
def braced (name : String) (fields : List String) : String :=
  name ++ " \x7b " ++ String.intercalate ", " fields ++ " \x7d"

/-- `None`, or the text of what is there. -/
def optionText (f : α → String) : Option α → String
  | none => "None"
  | some a => "Some(" ++ f a ++ ")"

def Parameter.inspect (p : Parameter) : String :=
  braced "Parameter" ["name: " ++ quoteText p.name, "default: " ++ optionText quoteText p.default]

def Signature.inspect (s : Signature) : String :=
  "Signature(" ++ bracketed (s.parameters.map Parameter.inspect) ++ ")"

variable {γ : Type}

def Function.inspect (f : Function γ) : String :=
  braced "Function" ["source: " ++ quoteText f.source, "signature: " ++ f.signature.inspect, ".."]

def Class.inspect (c : Class γ) : String :=
  braced "Class" ["type: " ++ quoteText c.makes.name, "signature: " ++ c.signature.inspect, ".."]

def Value.inspect (v : Value γ) : String :=
  "Value(" ++ quoteText v.type.name ++ ")"

def Binding.inspect : Binding γ → String
  | .constant v => "Constant(" ++ v.inspect ++ ")"
  | .singleton v => "Singleton(" ++ v.inspect ++ ")"
  | .transient c => "Transient(" ++ c.inspect ++ ")"
  | .provider f cached =>
    "Provider(" ++ f.inspect ++ ", " ++
      braced "Config" ["cache_provides: " ++ if cached then "true" else "false"] ++ ")"

def Arguments.inspect (a : Arguments γ) : String :=
  braced "Arguments"
    ["this: " ++ optionText Value.inspect a.receiver, "values: " ++ bracketed (a.values.map Value.inspect)]

end Injection
