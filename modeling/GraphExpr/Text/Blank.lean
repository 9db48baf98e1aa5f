import GraphExpr.Text.Table

/-! # White space

The characters with the property White_Space of Unicode, and the cutting of a text
at its two ends.
-/

namespace GraphExpr.Text

/-- Code points from 128 on with the property White_Space. -/
def blankTable : Table :=
  [(0x85, 0x85), (0xa0, 0xa0), (0x1680, 0x1680), (0x2000, 0x200a), (0x2028, 0x2029),
   (0x202f, 0x202f), (0x205f, 0x205f), (0x3000, 0x3000)]

/-- White space: the space, tab to carriage return, and the characters of the table. -/
def isBlank : Char → Bool :=
  inClass (fun c => c == ' ' || ('\t' ≤ c && c ≤ '\r')) blankTable

def trimStart (cs : List Char) : List Char :=
  cs.dropWhile isBlank

def trimEnd (cs : List Char) : List Char :=
  (cs.reverse.dropWhile isBlank).reverse

def trim (cs : List Char) : List Char :=
  trimEnd (trimStart cs)

def trimText (s : String) : String :=
  String.ofList (trim s.toList)

example : trimText "\u00a0 a b\u2003\n" = "a b" := by decide +kernel

end GraphExpr.Text
