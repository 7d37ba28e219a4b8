import Workflow.Definition

/-!
Loop nesting. A loop names its parent; the chain of a loop is the path from the outermost loop down
to it. Names may be wrong or run in a circle, so the climb takes at most as many steps as there are
loops: more steps would visit a name twice.
-/

set_option autoImplicit false

namespace Workflow.Definition

/-- The loop another one names as its parent. -/
def parent? (d : Definition) (l : Loop) : Option Loop :=
  l.parent.bind fun name => d.loops.find? (·.name = name)

/-- The loops met on a climb from a loop, nearest first, within a number of steps. -/
def climb (d : Definition) : Nat → Loop → List Loop
  | 0, _ => []
  | steps + 1, l =>
    match d.parent? l with
    | none => []
    | some p => p :: climb d steps p

/-- The nesting chain of a loop, outermost first and ending with the loop itself. -/
def loopChain (d : Definition) (l : Loop) : List Loop :=
  (l :: d.climb d.loops.length l).reverse

/-- The names along a loop's chain. -/
def loopNames (d : Definition) (l : Loop) : List String :=
  (d.loopChain l).map Loop.name

/-- How deeply a loop is nested, itself included. -/
def loopDepth (d : Definition) (l : Loop) : Nat :=
  (d.loopChain l).length

/-- Whether a climb from a loop comes back: it meets the loop itself, or a name a second time. -/
def climbsBack (d : Definition) (l : Loop) : Bool :=
  let met := d.climb (d.loops.length + 1) l
  l ∈ met ∨ ¬ (met.map Loop.name).Nodup

/-- Whether one loop stands strictly above another. -/
def isAncestor (d : Definition) (above l : Loop) : Bool :=
  above ∈ d.climb d.loops.length l

/-- The main-line positions of a loop's first and last body step. -/
def loopRange? (d : Definition) (l : Loop) : Option (Nat × Nat) := do
  let first ← d.indexOf? l.firstStep
  let last ← d.indexOf? l.lastStep
  return (first, last)

/-- Whether a main-line position lies within a loop's body. -/
def covers (d : Definition) (index : Nat) (l : Loop) : Bool :=
  match d.loopRange? l with
  | some (first, last) => first ≤ index ∧ index ≤ last
  | none => false

/-- The loops around a main-line step, outermost first. -/
def enclosingLoops (d : Definition) (step : String) : List Loop :=
  match d.indexOf? step with
  | none => []
  | some index =>
    (d.loops.filter (d.covers index)).mergeSort fun a b => d.loopDepth a ≤ d.loopDepth b

/-- The loops whose last body step a main-line step is, innermost first. -/
def loopsEndingAt (d : Definition) (step : String) : List Loop :=
  (d.loops.filter (·.lastStep = step)).mergeSort fun a b => d.loopDepth b ≤ d.loopDepth a

end Workflow.Definition
