/-!
# Answers as JSON

The tree in which answers are given, and its compact text with the fields of each object in the order of their
names.  Characters above ASCII are written as they are.
-/

namespace Injection

inductive Json
  | null
  | bool (b : Bool)
  | int (n : Int)
  | str (s : String)
  | arr (elements : List Json)
  | obj (fields : List (String × Json))

namespace Json

def strs (ss : List String) : Json :=
  .arr (ss.map .str)

/-- The value if there is one, otherwise `null`. -/
def orNull (f : α → Json) (a : Option α) : Json :=
  (a.map f).getD .null

/-! ### Text -/

private def hexDigits (n : Nat) : List Char :=
  let digits := Nat.toDigits 16 n
  List.replicate (4 - digits.length) '0' ++ digits

def escapedChar (c : Char) : List Char :=
  match c with
  | '\x22' => ['\\', '\x22']
  | '\\' => ['\\', '\\']
  | '\x08' => ['\\', 'b']
  | '\x0c' => ['\\', 'f']
  | '\n' => ['\\', 'n']
  | '\r' => ['\\', 'r']
  | '\t' => ['\\', 't']
  | c => if c.toNat < 0x20 then '\\' :: 'u' :: hexDigits c.toNat else [c]

def quoted (s : String) : String :=
  String.ofList ('\x22' :: s.toList.flatMap escapedChar ++ ['\x22'])

/-- Entries in the order of their names. -/
private def insertEntry (e : String × String) : List (String × String) → List (String × String)
  | [] => [e]
  | f :: fs => if e.1 < f.1 then e :: f :: fs else f :: insertEntry e fs

mutual

/-- The compact text of an answer. -/
def text : Json → String
  | .null => "null"
  | .bool b => if b then "true" else "false"
  | .int n => toString n
  | .str s => quoted s
  | .arr elements => "[" ++ String.intercalate "," (texts elements) ++ "]"
  | .obj fields =>
    "\x7b" ++ String.intercalate "," ((entries fields).map fun e => quoted e.1 ++ ":" ++ e.2) ++ "\x7d"

def texts : List Json → List String
  | [] => []
  | j :: js => text j :: texts js

/-- The names and texts of the fields, in the order of their names. -/
def entries : List (String × Json) → List (String × String)
  | [] => []
  | (name, j) :: fields => insertEntry (name, text j) (entries fields)

end

end Json

end Injection
