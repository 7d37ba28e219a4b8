import Workflow.Value.Reader

/-!
The parts of a settings document that are made of characters alone: blanks, comments, line ends and
quoted texts.

Double quotes allow escapes, single quotes do not. Three quotes open a text over several lines: a
line break right after them is dropped, every other one is kept as a plain line feed, and where such
a text allows escapes, a backslash at the end of a line drops all blanks up to the next character.
Up to two quotes may stand right before the three that close it.
-/

set_option autoImplicit false

namespace Workflow.Settings.Document

/-- Blanks within a line. -/
def isGap (c : Char) : Bool :=
  c = ' ' ∨ c = '\t'

/-- The characters after leading blanks. -/
def skipGap (cs : List Char) : List Char :=
  cs.dropWhile isGap

/-- Whether a comment or text may hold a character. -/
def isAllowed (c : Char) : Bool :=
  c = '\t' ∨ (0x20 ≤ c.toNat ∧ c.toNat ≠ 0x7f)

/-- A line break. -/
def readBreak? : List Char → Option (List Char)
  | '\n' :: rest => some rest
  | '\r' :: '\n' :: rest => some rest
  | _ => none

/-- The end of a line: blanks, a comment, and a line break or the end of the text. -/
def readLineEnd (cs : List Char) : Option (List Char) :=
  let rest := skipGap cs
  let rest := if rest.head? = some '#' then rest.dropWhile isAllowed else rest
  if rest = [] then some [] else readBreak? rest

/-- The characters after blanks, line breaks and comments. Where a comment holds a character that it
may not hold, that character is left. -/
def skipLines (inComment : Bool) : List Char → List Char
  | [] => []
  | '\r' :: '\n' :: rest => skipLines false rest
  | c :: rest =>
    if c = '\n' then skipLines false rest
    else if inComment then if isAllowed c then skipLines true rest else c :: rest
    else if isGap c then skipLines false rest
    else if c = '#' then skipLines true rest
    else c :: rest

/-- The number of a run of hexadecimal digits. -/
def hexNat? (digits : List Char) : Option Nat :=
  digits.foldlM (fun n c => (Value.hexValue? c).map (n * 16 + ·)) 0

/-- The character that an escape of `width` digits stands for. -/
def readNumbered (width : Nat) (cs : List Char) : Option (Char × List Char) :=
  if width ≤ cs.length then
    (hexNat? (cs.take width)).bind fun n =>
      if n < 0xd800 ∨ (0xdfff < n ∧ n < 0x110000) then some (Char.ofNat n, cs.drop width) else none
  else none

/-- The character that an escape stands for, from what follows its backslash. -/
def readEscape : List Char → Option (Char × List Char)
  | 'u' :: rest => readNumbered 4 rest
  | 'U' :: rest => readNumbered 8 rest
  | '/' :: _ => none
  | c :: rest => (Value.escaped? c).map (·, rest)
  | [] => none

/-- The rest of a text in double quotes on one line; `done` holds its characters reversed, and
`fuel` bounds their number. -/
def readBasic : Nat → List Char → List Char → Option (String × List Char)
  | 0, _, _ => none
  | _ + 1, _, [] => none
  | fuel + 1, done, c :: rest =>
    if c = '\x22' then some (String.ofList done.reverse, rest)
    else if c = '\\' then (readEscape rest).bind fun (e, more) => readBasic fuel (e :: done) more
    else if isAllowed c then readBasic fuel (c :: done) rest
    else none

/-- The rest of a text in single quotes on one line. -/
def readLiteral (cs : List Char) : Option (String × List Char) :=
  let body := cs.takeWhile fun c => isAllowed c ∧ c ≠ '\x27'
  match cs.drop body.length with
  | '\x27' :: rest => some (String.ofList body, rest)
  | _ => none

/-- The end of a text over several lines, after the first three quotes of a run of them. -/
def closeLines (quote : Char) (done rest : List Char) : String × List Char :=
  let more := (rest.takeWhile (· = quote)).take 2
  (String.ofList (more ++ done).reverse, rest.drop more.length)

/-- The characters after blanks and line breaks. -/
def skipBreaks : List Char → List Char
  | '\r' :: '\n' :: rest => skipBreaks rest
  | c :: rest => if isGap c ∨ c = '\n' then skipBreaks rest else c :: rest
  | [] => []

/-- What follows a backslash at the end of a line. -/
def readJoined? (cs : List Char) : Option (List Char) :=
  (readBreak? (skipGap cs)).map skipBreaks

/-- The rest of a text in double quotes over several lines. -/
def readBasicLines : Nat → List Char → List Char → Option (String × List Char)
  | 0, _, _ => none
  | _ + 1, done, '\x22' :: '\x22' :: '\x22' :: rest => some (closeLines '\x22' done rest)
  | fuel + 1, done, '\\' :: rest =>
    match readJoined? rest with
    | some more => readBasicLines fuel done more
    | none => (readEscape rest).bind fun (e, more) => readBasicLines fuel (e :: done) more
  | fuel + 1, done, '\r' :: '\n' :: rest => readBasicLines fuel ('\n' :: done) rest
  | fuel + 1, done, c :: rest =>
    if c = '\n' ∨ isAllowed c then readBasicLines fuel (c :: done) rest else none
  | _ + 1, _, [] => none

/-- The rest of a text in single quotes over several lines. -/
def readLiteralLines (done : List Char) : List Char → Option (String × List Char)
  | '\x27' :: '\x27' :: '\x27' :: rest => some (closeLines '\x27' done rest)
  | '\r' :: '\n' :: rest => readLiteralLines ('\n' :: done) rest
  | c :: rest => if c = '\n' ∨ isAllowed c then readLiteralLines (c :: done) rest else none
  | [] => none

/-- The characters after a line break, where there is one. -/
def skipBreak (cs : List Char) : List Char :=
  (readBreak? cs).getD cs

/-- A text in quotes of any kind. -/
def readText : List Char → Option (String × List Char)
  | '\x22' :: '\x22' :: '\x22' :: rest => readBasicLines rest.length [] (skipBreak rest)
  | '\x22' :: rest => readBasic rest.length [] rest
  | '\x27' :: '\x27' :: '\x27' :: rest => readLiteralLines [] (skipBreak rest)
  | '\x27' :: rest => readLiteral rest
  | _ => none

/-- Whether a key may hold a character without quotes. -/
def isBareKey (c : Char) : Bool :=
  c.isAlphanum ∨ c = '_' ∨ c = '-'

/-- One part of a key, in quotes on one line or without. -/
def readKeyPart : List Char → Option (String × List Char)
  | '\x22' :: rest => readBasic rest.length [] rest
  | '\x27' :: rest => readLiteral rest
  | cs =>
    let bare := cs.takeWhile isBareKey
    if bare = [] then none else some (String.ofList bare, cs.drop bare.length)

/-- A key of at most `limit` parts with points between them. -/
def readParts : Nat → List Char → Option (List String × List Char)
  | 0, _ => none
  | limit + 1, cs => do
    let (part, rest) ← readKeyPart (skipGap cs)
    match skipGap rest with
    | '.' :: more =>
      let (parts, after) ← readParts limit more
      return (part :: parts, after)
    | after => return ([part], after)

/-- How many parts a key may have, and how many arrays and tables may stand in each other. -/
def depthLimit : Nat := 79

/-- A key, with the blanks around it. -/
def readKey (cs : List Char) : Option (List String × List Char) :=
  readParts depthLimit cs

end Workflow.Settings.Document
