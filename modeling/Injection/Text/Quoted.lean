import Injection.Text.Printable

/-!
# Quoted text

Text between double quotes, as it is shown for inspection: a quote, a backslash and the common controls are written
with a backslash, marks and characters without a shape of their own by their code point.
-/

namespace Injection

namespace Quoted

/-- The code point in hexadecimal. -/
def codePoint (c : Char) : List Char :=
  '\\' :: 'u' :: '\x7b' :: Nat.toDigits 16 c.toNat ++ ['\x7d']

def shown (c : Char) : List Char :=
  match c with
  | '\x00' => ['\\', '0']
  | '\t' => ['\\', 't']
  | '\r' => ['\\', 'r']
  | '\n' => ['\\', 'n']
  | '\\' => ['\\', '\\']
  | '\x22' => ['\\', '\x22']
  | c => if isAttaching c || !isPrintable c then codePoint c else [c]

end Quoted

/-- The text between double quotes. -/
def quoteText (s : String) : String :=
  String.ofList ('\x22' :: s.toList.flatMap Quoted.shown ++ ['\x22'])

end Injection
