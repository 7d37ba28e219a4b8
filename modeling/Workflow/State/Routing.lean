import Workflow.Value.Printer

/-!
Routing texts: what a branch sees of the state. The value at a dotted path routes by its content if
it is a text, and by its printed form otherwise; null and a path that leads nowhere route as the
empty text.
-/

set_option autoImplicit false

namespace Workflow.State

/-- The runs of characters between points. -/
def splitPoints : List Char → List (List Char)
  | [] => [[]]
  | c :: rest =>
    match splitPoints rest with
    | [] => [[c]]
    | segment :: segments =>
      if c = '.' then [] :: segment :: segments else (c :: segment) :: segments

/-- The segments of a dotted path; empty ones do not count. -/
def segments (path : String) : List String :=
  ((splitPoints path.toList).filter (· ≠ [])).map String.ofList

/-- The value that a list of keys leads to. -/
def follow? (v : Value) : List String → Option Value
  | [] => some v
  | key :: rest => (v.get? key).bind (follow? · rest)

/-- A value as routing text. -/
def routingOf : Option Value → String
  | none => ""
  | some .null => ""
  | some (.string text) => text
  | some v => v.print

/-- The routing text at a dotted path of the state. -/
def routingText (state : Value) (path : String) : String :=
  routingOf (follow? state (segments path))

end Workflow.State
