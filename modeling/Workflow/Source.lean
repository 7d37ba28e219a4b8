/-!
Source text as a list of pieces: lines, blank lines, and the opening and closing of braces. The
depth of a line is the number of braces open before it, so a printer of pieces never handles
indentation, and `Balanced` can be read off the pieces.
-/

set_option autoImplicit false

namespace Workflow.Source

/-- A piece of source text. -/
inductive Piece where
  /-- One line at the depth in force; an empty one is not indented. -/
  | line (text : String)
  | blank
  /-- A line that ends in an open brace; what follows is one level deeper. -/
  | opening (text : String)
  /-- A closing brace one level up, and what follows it on the line. -/
  | closing (rest : String)
  deriving DecidableEq, Repr

/-- A line that opens a brace after a space. -/
def Piece.block (text : String) : Piece :=
  .opening (text ++ " \x7b")

/-- A line at a depth, with its line break. -/
def indented (width depth : Nat) (text : String) : String :=
  if text = "" then "\n" else String.ofList (List.replicate (depth * width) ' ') ++ text ++ "\n"

/-- The lines of pieces from a depth on. A brace closed at depth zero stays at depth zero. -/
def lay (width : Nat) : Nat → List Piece → List String
  | _, [] => []
  | depth, .line text :: rest => indented width depth text :: lay width depth rest
  | depth, .blank :: rest => "\n" :: lay width depth rest
  | depth, .opening text :: rest => indented width depth text :: lay width (depth + 1) rest
  | depth, .closing after :: rest =>
    indented width (depth - 1) ("\x7d" ++ after) :: lay width (depth - 1) rest

/-- Pieces as text. -/
def write (width : Nat) (pieces : List Piece) : String :=
  String.join (lay width 0 pieces)

/-- The depth after pieces, unless a brace is closed that was not opened. -/
def depthAfter? : Nat → List Piece → Option Nat
  | depth, [] => some depth
  | depth, .line _ :: rest => depthAfter? depth rest
  | depth, .blank :: rest => depthAfter? depth rest
  | depth, .opening _ :: rest => depthAfter? (depth + 1) rest
  | depth + 1, .closing _ :: rest => depthAfter? depth rest
  | 0, .closing _ :: _ => none

/-- Pieces that open and close their own braces, and no others. -/
def Balanced (pieces : List Piece) : Prop :=
  ∀ depth, depthAfter? depth pieces = some depth

theorem depthAfter?_append (depth : Nat) (front back : List Piece) :
    depthAfter? depth (front ++ back) = (depthAfter? depth front).bind (depthAfter? · back) := by
  fun_induction depthAfter? depth front <;> simp_all [depthAfter?]

theorem Balanced.append {front back : List Piece} (hf : Balanced front) (hb : Balanced back) :
    Balanced (front ++ back) := by
  intro depth
  simp [depthAfter?_append, hf depth, hb depth]

end Workflow.Source
