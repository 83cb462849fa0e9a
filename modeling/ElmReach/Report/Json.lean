import ElmReach.Text.Quoted

/-!
# JSON reports

The values that reports hold, and their layout: one item to a line, two spaces for each level, and
ASCII only, with escapes for all other characters.
-/

namespace ElmReach.Report

/-- A value of a report. -/
inductive Json where
  | text (value : String)
  | number (value : Nat)
  | list (items : List Json)
  | object (fields : List (String × Json))

namespace Json

/-- The escape of a code unit by its number. -/
def unitEscape (unit : Nat) : List Char :=
  '\\' :: 'u' :: Text.hex 4 unit

/-- How a character is written in a string. Characters beyond the first 65536 code points take two
escapes. -/
def escape (c : Char) : List Char :=
  if c = Text.doubleQuote ∨ c = '\\' then ['\\', c]
  else if c = '\n' then ['\\', 'n']
  else if c = '\r' then ['\\', 'r']
  else if c = '\t' then ['\\', 't']
  else if c = '\x08' then ['\\', 'b']
  else if c = '\x0c' then ['\\', 'f']
  else if 32 ≤ c.toNat ∧ c.toNat < 127 then [c]
  else if c.toNat < 0x10000 then unitEscape c.toNat
  else
    unitEscape (0xD800 + (c.toNat - 0x10000) / 0x400) ++
      unitEscape (0xDC00 + (c.toNat - 0x10000) % 0x400)

/-- A string with its quotes. -/
def string (value : String) : String :=
  String.ofList (Text.doubleQuote :: value.toList.flatMap escape ++ [Text.doubleQuote])

/-- A line break and the blanks in front of a line of some depth. -/
def newline (depth : Nat) : String :=
  String.ofList ('\n' :: List.replicate (2 * depth) ' ')

/-- Items between brackets, one to a line. -/
def bracketed (first last : String) (depth : Nat) (items : List String) : String :=
  if items.isEmpty then first ++ last
  else
    first ++ newline (depth + 1) ++ ("," ++ newline (depth + 1)).intercalate items ++
      newline depth ++ last

mutual

/-- The layout of a value that stands at some depth. -/
def layout (depth : Nat) : Json → String
  | .text value => string value
  | .number value => toString value
  | .list items => bracketed "[" "]" depth (layoutItems (depth + 1) items)
  | .object fields => bracketed "\x7b" "\x7d" depth (layoutFields (depth + 1) fields)

/-- The layouts of the items of a list. -/
def layoutItems (depth : Nat) : List Json → List String
  | [] => []
  | item :: rest => item.layout depth :: layoutItems depth rest

/-- The layouts of the fields of an object. -/
def layoutFields (depth : Nat) : List (String × Json) → List String
  | [] => []
  | (name, value) :: rest => (string name ++ ": " ++ value.layout depth) :: layoutFields depth rest

end

/-- The text of a report. -/
def render (value : Json) : String :=
  value.layout 0

end Json

end ElmReach.Report
