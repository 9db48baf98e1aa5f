import GraphExpr.Text.Printable

/-! # Quoted texts

How a text is shown inside a message: between quotes, with short escapes for the quote,
the backslash and the common controls, and a hexadecimal escape for every other character
that cannot stand alone on a line.
-/

namespace GraphExpr.Text

def hexEscape (c : Char) : List Char :=
  "\\u\x7b".toList ++ Nat.toDigits 16 c.toNat ++ "\x7d".toList

def quotedChar (c : Char) : List Char :=
  match c with
  | '"' => ['\\', '"']
  | '\\' => ['\\', '\\']
  | '\n' => ['\\', 'n']
  | '\t' => ['\\', 't']
  | '\r' => ['\\', 'r']
  | '\x00' => ['\\', '0']
  | c => if isExtending c || !isPrintable c then hexEscape c else [c]

def quoted (s : String) : String :=
  String.ofList ('"' :: s.toList.flatMap quotedChar ++ ['"'])

end GraphExpr.Text
