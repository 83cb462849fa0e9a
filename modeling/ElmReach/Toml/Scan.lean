import ElmReach.Toml.Calendar
import ElmReach.Toml.Key
import ElmReach.Toml.Table

/-!
# Reading values

Reading takes a value from the front of a text and gives back what follows, or says what is wrong
with the text. Values are nested in a room of limited size, of which an array takes two parts and
an inline table three.
-/

namespace ElmReach.Toml

/-- A part of a text must be there. -/
def expect {α : Type} : Option α → Except Flaw α
  | some found => .ok found
  | none => .error .malformed

/-- Read a value that is neither an array nor an inline table. -/
def readScalar (text : List Char) : Except Flaw (Value × List Char) :=
  match text with
  | 't' :: 'r' :: 'u' :: 'e' :: after => .ok (.flag true, after)
  | 'f' :: 'a' :: 'l' :: 's' :: 'e' :: after => .ok (.flag false, after)
  | c :: _ =>
    if c = Text.doubleQuote ∨ c = Text.singleQuote then do
      let (string, after) ← expect (string? text)
      return (.text (String.ofList string), after)
    else ((calendarValue? text).or (number? text)).getD (.error .malformed)
  | [] => .error .malformed

mutual

/-- Read a value, with arrays and inline tables at most `fuel` deep and long. -/
def readValue (fuel room : Nat) (text : List Char) : Except Flaw (Value × List Char) :=
  match fuel with
  | 0 => .error .malformed
  | fuel + 1 =>
    match text with
    | '[' :: rest => do
      if room < 2 then throw .tooDeep
      let (items, after) ← readItems fuel (room - 2) rest
      return (.list items, after)
    | '{' :: rest => do
      if room < 3 then throw .tooDeep
      match skipSpace rest with
      | '}' :: after => return (.table [], after)
      | inside =>
        let (entries, after) ← readPairs fuel (room - 3) [] inside
        return (.table (entryValues entries), after)
    | _ => readScalar text

/-- Read the items of an array behind its bracket or a comma, up to the closing bracket. -/
def readItems (fuel room : Nat) (text : List Char) : Except Flaw (List Value × List Char) :=
  match fuel with
  | 0 => .error .malformed
  | fuel + 1 =>
    match skipGap? text.length text with
    | none => .error .malformed
    | some (']' :: after) => .ok ([], after)
    | some inside => do
      let (item, behind) ← readValue fuel room inside
      match skipGap? behind.length behind with
      | some (']' :: after) => return ([item], after)
      | some (',' :: rest) =>
        let (items, after) ← readItems fuel room rest
        return (item :: items, after)
      | _ => throw .malformed

/-- Read the entries of an inline table from a key on, up to the closing brace. -/
def readPairs (fuel room : Nat) (entries : Entries) (text : List Char) :
    Except Flaw (Entries × List Char) :=
  match fuel with
  | 0 => .error .malformed
  | fuel + 1 =>
    match key? text.length text with
    | some (key, '=' :: rest) => do
      let (value, behind) ← readValue fuel room (skipSpace rest)
      let grown ← expect (Entries.assign 0 key.dropLast (key.getLast?.getD "") value entries)
      match skipSpace behind with
      | '}' :: after => return (grown, after)
      | ',' :: rest => readPairs fuel room grown (skipSpace rest)
      | _ => throw .malformed
    | _ => .error .malformed

end

end ElmReach.Toml
