/-!
Blank texts: the characters with the Unicode property `White_Space`, and the texts made of them
alone.
-/

set_option autoImplicit false

namespace Workflow.Text

/-- The ranges of the property `White_Space`, in increasing order. -/
def blankRanges : List (Nat × Nat) :=
  [(0x9, 0xd), (0x20, 0x20), (0x85, 0x85), (0xa0, 0xa0), (0x1680, 0x1680), (0x2000, 0x200a),
    (0x2028, 0x2029), (0x202f, 0x202f), (0x205f, 0x205f), (0x3000, 0x3000)]

/-- Whether a code point lies in one of the ranges. -/
def inRanges (ranges : List (Nat × Nat)) (n : Nat) : Bool :=
  ranges.any fun r => r.1 ≤ n && n ≤ r.2

/-- Whether a character is white space. -/
def isBlankChar (c : Char) : Bool :=
  inRanges blankRanges c.toNat

/-- Whether nothing is left of a text once white space is taken away. -/
def isBlank (text : String) : Bool :=
  text.toList.all isBlankChar

end Workflow.Text
