import Workflow.Message
import Workflow.Text.Quoted

/-!
Collaborators: the reducer, the condition registry and the step executor a process runs with.

What a registry or executor answers may depend on the calls made before, which are kept in a log. A
collaborator that does not look at the log is pure. The module also gives the registry of named
predicates and the executor of scripted outcomes.
-/

set_option autoImplicit false

namespace Workflow

/-- A call to a collaborator, and how it answered. -/
inductive Call where
  | condition (id : String) (holds : Bool)
  | execute (workType : String) (succeeded : Bool)
  deriving DecidableEq, Repr

/-- Names predicates and evaluates them on a state, in view of the calls before. -/
abbrev Registry := List Call → String → Value → Bool

/-- Runs the work of a step on a state, in view of the calls before. -/
abbrev Executor := List Call → String → Value → Except StepFailure Value

/-- What a transition may ask. -/
structure Collaborators where
  reduce : Value → Value → Value
  conditions : Registry

/-- A registry that does not look at the log. -/
def Registry.IsPure (r : Registry) : Prop :=
  ∀ calls id state, r calls id state = r [] id state

/-- An executor that does not look at the log. -/
def Executor.IsPure (e : Executor) : Prop :=
  ∀ calls workType state, e calls workType state = e [] workType state

/-- Evaluate a condition and log the call. -/
def Registry.ask (r : Registry) (calls : List Call) (id : String) (state : Value) :
    Bool × List Call :=
  let holds := r calls id state
  (holds, calls ++ [.condition id holds])

/-- Run work and log the call. -/
def Executor.run (e : Executor) (calls : List Call) (workType : String) (state : Value) :
    Except StepFailure Value × List Call :=
  let result := e calls workType state
  (result, calls ++ [.execute workType result.isOk])

/-- A whole number of the signed 64-bit range. -/
def signedWord? : Value → Option Int
  | .int n => if Value.isSignedWord n then some n else none
  | _ => none

/-- A predicate on the state. -/
inductive Predicate where
  | const (b : Bool)
  /-- The key is there, even with null under it. -/
  | has (key : String)
  /-- The key is there with this value. -/
  | equals (key : String) (value : Value)
  /-- The key holds a number that is at least this one. -/
  | atLeast (key : String) (n : Int)
  /-- True from the n-th evaluation of its condition on. -/
  | fromTurn (n : Int)
  | negation (p : Predicate)
  deriving DecidableEq, Repr, Inhabited

/-- Whether a predicate holds at the given turn of its condition. -/
def Predicate.holds (turn : Nat) (state : Value) : Predicate → Bool
  | .const b => b
  | .has key => (state.get? key).isSome
  | .equals key value => (state.get? key).any (·.sameData value)
  | .atLeast key n => ((state.get? key).bind signedWord?).any (n ≤ ·)
  | .fromTurn n => n ≤ turn
  | .negation p => !p.holds turn state

/-- Predicates by condition id, in key order. -/
abbrev ConditionTable := List (String × Predicate)

/-- How often a condition has been evaluated. -/
def evaluations (calls : List Call) (id : String) : Nat :=
  calls.countP fun c =>
    match c with
    | .condition other _ => other = id
    | .execute _ _ => false

/-- The registry of a table; an id that is not in it is false. -/
def ConditionTable.registry (t : ConditionTable) : Registry := fun calls id state =>
  match Keyed.get? id t with
  | some p => p.holds (evaluations calls id + 1) state
  | none => false

/-- The table as text. -/
def ConditionTable.describe (t : ConditionTable) : String :=
  s!"ConditionTable \x7b conditions: {Text.quotedList (t.map Prod.fst)} \x7d"

/-- A scripted outcome of work. -/
inductive Script where
  | succeed (update : Value)
  | fail (failure : StepFailure)
  /-- Succeed with a number of the state, one more. -/
  | increment (key : String)
  deriving DecidableEq, Repr

/-- Play an outcome on a state. -/
def Script.play (state : Value) : Script → Except StepFailure Value
  | .succeed update => .ok update
  | .fail failure => .error failure
  | .increment key =>
    let n := ((state.get? key).bind signedWord?).getD 0
    .ok (.object [(key, .int (n + 1))])

/-- Outcomes by work type, in key order. -/
abbrev ScriptTable := List (String × List Script)

/-- How often work of a type has been run. -/
def executions (calls : List Call) (workType : String) : Nat :=
  calls.countP fun c =>
    match c with
    | .execute other _ => other = workType
    | .condition _ _ => false

/-- The executor of a table: one outcome per run, the last one again and again; work that is not in
it succeeds with an empty update. -/
def ScriptTable.executor (t : ScriptTable) : Executor := fun calls workType state =>
  let scripts := (Keyed.get? workType t).getD []
  match (scripts[executions calls workType]?).or scripts.getLast? with
  | some s => s.play state
  | none => .ok (.object [])

/-- The table as text. -/
def ScriptTable.describe (t : ScriptTable) : String :=
  s!"SimulatedExecutor \x7b steps: {Text.quotedList (t.map Prod.fst)} \x7d"

end Workflow
