import Workflow.Settings
import Workflow.Settings.Document.Moment
import Workflow.Settings.Document.Number
import Workflow.Settings.Document.Tables
import Workflow.Settings.Document.Text

/-!
Settings documents: lines of `key = value`, comments, and tables that a bracketed header opens.

A setting is a text, a whole number or a truth value that stands before the first header. All else,
be it a moment, an array, a table or a key of no setting, is checked and then left aside, so an
array or a table is kept without its contents. A mark of the byte order may stand before the first
line.
-/

set_option autoImplicit false

namespace Workflow.Settings

namespace Document

/-- Whether a value without quotes ends before a character. -/
def isEnd (c : Char) : Bool :=
  isGap c ∨ c ∈ ['#', '\n', '\r', ',', ']', '\x7d']

/-- A value that holds no other values. -/
def readScalar (cs : List Char) : Option (Value × List Char) :=
  if cs.head? = some '\x22' ∨ cs.head? = some '\x27' then
    (readText cs).map fun (text, rest) => (.string text, rest)
  else
    match readMoment cs with
    | some rest => some (.object [], rest)
    | none =>
      let run := cs.takeWhile (!isEnd ·)
      (word? run).map (·, cs.drop run.length)

/-- What follows an array, from its first item or after a comma. A comma may stand after the last
item. -/
def readItems (item : List Char → Option (Value × List Char)) : Nat → List Char → Option (List Char)
  | 0, _ => none
  | fuel + 1, cs =>
    match skipLines false cs with
    | ']' :: rest => some rest
    | body => do
      let (_, after) ← item body
      match skipLines false after with
      | ',' :: more => readItems item fuel more
      | ']' :: rest => some rest
      | _ => none

/-- A key and its value. -/
def readPair (value : List Char → Option (Value × List Char)) (cs : List Char) :
    Option (List String × Value × List Char) := do
  let (key, after) ← readKey cs
  let (v, rest) ← value (skipGap (← readMark '=' after))
  return (key, v, rest)

/-- What follows a table on one line, from its first pair or after a comma. -/
def readPairs (value : List Char → Option (Value × List Char)) :
    Nat → Progress → List Char → Option (List Char)
  | 0, _, _ => none
  | fuel + 1, p, cs => do
    let (key, v, rest) ← readPair value cs
    let p ← p.define key v
    match skipGap rest with
    | ',' :: more => readPairs value fuel p more
    | '\x7d' :: more => some more
    | _ => none

/-- What follows a table on one line, after its opening brace. -/
def readBraces (value : List Char → Option (Value × List Char)) (cs : List Char) :
    Option (List Char) :=
  match skipGap cs with
  | '\x7d' :: rest => some rest
  | body => readPairs value body.length ⟨[], []⟩ body

/-- A value with at most `depth` arrays and tables in each other. -/
def readNested : Nat → List Char → Option (Value × List Char)
  | depth + 1, '[' :: rest =>
    (readItems (readNested depth) rest.length rest).map (.array [], ·)
  | depth + 1, '\x7b' :: rest => (readBraces (readNested depth) rest).map (.object [], ·)
  | _, cs => readScalar cs

/-- A value. -/
def readValue (cs : List Char) : Option (Value × List Char) :=
  readNested depthLimit cs

/-- The rest of a header, after its opening brackets. -/
def readHeader (closing : List Char) (cs : List Char) : Option (List String × List Char) := do
  let (header, after) ← readKey cs
  if closing.isPrefixOf after then
    let next ← readLineEnd (after.drop closing.length)
    return (header, next)
  else none

/-- A line, or several if a value takes them. -/
def readLine (p : Progress) (cs : List Char) : Option (Progress × List Char) :=
  match skipGap cs with
  | '[' :: '[' :: rest => do
    let (header, next) ← readHeader [']', ']'] rest
    return (← p.add header, next)
  | '[' :: rest => do
    let (header, next) ← readHeader [']'] rest
    return (← p.enter header, next)
  | body =>
    match readLineEnd body with
    | some next => some (p, next)
    | none => do
      let (key, v, rest) ← readPair readValue body
      let next ← readLineEnd rest
      return (← p.define key v, next)

/-- All lines; `fuel` bounds their number. -/
def readLines : Nat → Progress → List Char → Option Progress
  | _, p, [] => some p
  | 0, _, _ :: _ => none
  | fuel + 1, p, c :: cs => (readLine p (c :: cs)).bind fun (p, rest) => readLines fuel p rest

/-- A text without the mark of the byte order that it may start with. -/
def withoutMark : List Char → List Char
  | c :: rest => if c.toNat = 0xfeff then rest else c :: rest
  | [] => []

/-- The top level of a document's text. -/
def read? (text : String) : Option Value :=
  let chars := withoutMark text.toList
  (readLines chars.length ⟨[], []⟩ chars).map Progress.top

end Document

/-- Settings from a document's text, checked. -/
def ofDocument (text : String) : Except Refusal Settings :=
  match (Document.read? text).bind ofValue? with
  | none => .error .unreadable
  | some s => s.check

/-- What is found where a document was looked for. -/
inductive Found where
  | nothing
  | text (contents : String)
  /-- Something that is there and has no text. -/
  | noText
  deriving DecidableEq, Repr

/-- Settings from what was found; where there is nothing, the defaults hold. -/
def load : Found → Except Refusal Settings
  | .nothing => .ok default
  | .text contents => ofDocument contents
  | .noText => .error .inaccessible

end Workflow.Settings
