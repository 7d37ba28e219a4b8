import Workflow.Text.Blank
import Workflow.Value.Decoder

/-!
Settings of source generation, their defaults, and the checks on settings that were read from a
document.
-/

set_option autoImplicit false

namespace Workflow

/-- How generated source is written. -/
structure Settings where
  /-- The module path of the definitions that generated source refers to. -/
  runtimePath : String
  /-- Spaces per level of indentation. -/
  indentWidth : Nat
  /-- Whether generated types derive the two serialisation traits. -/
  deriveCodecs : Bool
  /-- Whether generated items carry doc comments. -/
  docComments : Bool
  /-- The state type of definitions that name none. -/
  defaultStateType : String
  deriving DecidableEq, Repr

namespace Settings

/-- The settings in force when nothing is said. -/
def default : Settings where
  runtimePath := "procflow_engine::contract"
  indentWidth := 4
  deriveCodecs := true
  docComments := true
  defaultStateType := "serde_json::Value"

instance : Inhabited Settings := ⟨default⟩

/-- Why settings are refused. -/
inductive Refusal where
  /-- The text is no document, or a setting has the wrong type. -/
  | unreadable
  /-- The place the text was to be read from cannot be read. -/
  | inaccessible
  | indentWidth (given : Nat)
  | emptyRuntimePath
  | emptyDefaultStateType
  deriving DecidableEq, Repr

/-- What a refusal says, where it is about a setting that was understood. -/
def Refusal.message? : Refusal → Option String
  | .unreadable => none
  | .inaccessible => none
  | .indentWidth given =>
    some s!"Configuration error: indent_width must be between 1 and 8, got {given}"
  | .emptyRuntimePath => some "Configuration error: runtime_path must not be empty"
  | .emptyDefaultStateType => some "Configuration error: default_state_type must not be empty"

/-- Settings from a value; a missing field keeps its default. Nothing else is checked. -/
def ofValue? (v : Value) : Option Settings := do
  let fields ← v.asFields?
  let runtimePath ← Value.defaulted? Value.asString? default.runtimePath "runtime_path" fields
  let indentWidth ← Value.defaulted? Value.asNat? default.indentWidth "indent_width" fields
  let deriveCodecs ← Value.defaulted? Value.asBool? default.deriveCodecs "serde_derives" fields
  let docComments ← Value.defaulted? Value.asBool? default.docComments "doc_comments" fields
  let defaultStateType ←
    Value.defaulted? Value.asString? default.defaultStateType "default_state_type" fields
  return { runtimePath, indentWidth, deriveCodecs, docComments, defaultStateType }

/-- Settings as a value. -/
def toValue (s : Settings) : Value :=
  .object [("default_state_type", .string s.defaultStateType), ("doc_comments", .bool s.docComments),
    ("indent_width", Value.ofNat s.indentWidth), ("runtime_path", .string s.runtimePath),
    ("serde_derives", .bool s.deriveCodecs)]

/-- The range checks, in order. -/
def check (s : Settings) : Except Refusal Settings :=
  if s.indentWidth = 0 ∨ 8 < s.indentWidth then .error (.indentWidth s.indentWidth)
  else if Text.isBlank s.runtimePath then .error .emptyRuntimePath
  else if Text.isBlank s.defaultStateType then .error .emptyDefaultStateType
  else .ok s

end Settings

end Workflow
