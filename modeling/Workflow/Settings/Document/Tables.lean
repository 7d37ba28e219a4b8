import Workflow.Value

/-!
What a settings document has defined, by path.

A table is made in one way: by its own header, by a header of a table within it, by a key with
several parts, or as the next one of a list of tables. The way it was made decides what may still go
into it. Of a list only the last table can be reached.
-/

set_option autoImplicit false

namespace Workflow.Settings.Document

/-- How a table came to be. -/
inductive TableKind where
  /-- By its own header. -/
  | opened
  /-- By the header of a table within it. -/
  | implied
  /-- By a key with several parts. -/
  | dotted
  /-- As the last of a list of tables, each with a header of its own. -/
  | listed
  deriving DecidableEq, Repr

/-- What stands at a path. -/
inductive Entry where
  | value (v : Value)
  | table (kind : TableKind)
  deriving DecidableEq, Repr

/-- The header in force, and what a document has defined so far, last first. -/
structure Progress where
  header : List String
  entries : List (List String × Entry)

/-- What stands at a path. -/
def Progress.entry? (p : Progress) (path : List String) : Option Entry :=
  p.entries.lookup path

/-- Put something at a path. -/
def Progress.put (p : Progress) (path : List String) (e : Entry) : Progress :=
  { p with entries := (path, e) :: p.entries }

/-- Go through the table at a path, which is made if nothing stands there. A key with several parts
does not go through a table that its own header opened, other than as one of a list. -/
def Progress.pass (making : TableKind) (p : Progress) (path : List String) : Option Progress :=
  match p.entry? path with
  | none => some (p.put path (.table making))
  | some (.value _) => none
  | some (.table kind) => if making = .dotted ∧ kind = .opened then none else some p

/-- The tables on the way from a path down to a key under it, outermost first. -/
def way (path key : List String) : List (List String) :=
  (List.range (key.length - 1)).map fun i => path ++ key.take (i + 1)

/-- Define a key in the table in force, unless the place is taken. A key with several parts goes
into a table that such keys have made. -/
def Progress.define (p : Progress) (key : List String) (v : Value) : Option Progress := do
  let p ← (way p.header key).foldlM (Progress.pass .dotted) p
  let holder := p.header ++ key.dropLast
  let path := p.header ++ key
  if 1 < key.length ∧ p.entry? holder ≠ some (.table .dotted) then none
  else if (p.entry? path).isSome then none
  else some (p.put path (.value v))

/-- Open a table, unless the place is taken by more than a header of a table within it. -/
def Progress.enter (p : Progress) (header : List String) : Option Progress := do
  let p ← (way [] header).foldlM (Progress.pass .implied) p
  let found := p.entry? header
  if found = none ∨ found = some (.table .implied) then
    some { p.put header (.table .opened) with header := header }
  else none

/-- Add a table to a list of tables, which is made if nothing stands there. What was defined in the
table before it is out of reach. -/
def Progress.add (p : Progress) (header : List String) : Option Progress := do
  let p ← (way [] header).foldlM (Progress.pass .implied) p
  let found := p.entry? header
  if found = none ∨ found = some (.table .listed) then
    let kept := p.entries.filter fun e => !header.isPrefixOf e.1
    some ⟨header, (header, .table .listed) :: kept⟩
  else none

/-- The top level of a document: its values by key, and its tables by name. -/
def Progress.top (p : Progress) : Value :=
  let field (e : List String × Entry) : Option (String × Value) :=
    match e with
    | ([key], .value v) => some (key, v)
    | ([key], .table kind) => some (key, if kind = .listed then .array [] else .object [])
    | _ => none
  .object (Keyed.ofList (p.entries.filterMap field))

end Workflow.Settings.Document
