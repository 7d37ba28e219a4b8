import Workflow.Text.Unprintable

/-!
Quoted texts: a text between double quotes, on one line, with everything that could end the quotes
or the line escaped. Lists of texts are quoted one by one between brackets.
-/

set_option autoImplicit false

namespace Workflow.Text

/-- The hexadecimal digits of a number without leading zeros. -/
def hexMinimal (n : Nat) : List Char :=
  Nat.toDigits 16 n

/-- One character between quotes. -/
def quoteChar (c : Char) : List Char :=
  if c = '\x22' then ['\\', '\x22']
  else if c = '\\' then ['\\', '\\']
  else if c = '\n' then ['\\', 'n']
  else if c = '\r' then ['\\', 'r']
  else if c = '\t' then ['\\', 't']
  else if c = '\x00' then ['\\', '0']
  else if isUnprintable c then ['\\', 'u', '\x7b'] ++ hexMinimal c.toNat ++ ['\x7d']
  else [c]

/-- What stands between the quotes. -/
def quoteChars (text : List Char) : List Char :=
  text.flatMap quoteChar

/-- A text in double quotes. -/
def quoted (text : String) : String :=
  String.ofList ('\x22' :: quoteChars text.toList ++ ['\x22'])

/-- A list of texts, each in double quotes, between brackets. -/
def quotedList (texts : List String) : String :=
  "[" ++ String.intercalate ", " (texts.map quoted) ++ "]"

end Workflow.Text
