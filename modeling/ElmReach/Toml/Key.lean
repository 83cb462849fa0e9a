import ElmReach.Text.Quoted
import ElmReach.Toml.Gap
import ElmReach.Toml.Number

/-!
# Reading strings and keys

Strings are basic, with escapes, or literal, and stand on one line or on several. Keys are parts
with dots between them, where each part is a string of one line or a bare word.
-/

namespace ElmReach.Toml

/-- The character of a code point that is written with `count` hexadecimal digits. -/
def codeEscape? (count : Nat) (text : List Char) : Option Char :=
  let digits := text.take count
  let point := number 16 digits
  if digits.length = count ∧ digits.all isHexDigit ∧ point.isValidChar then
    some (Char.ofNat point)
  else none

/-- The text that an escape stands for, and the number of characters behind the backslash that it
takes. In a string of several lines a backslash before a line break skips all blanks. -/
def escape? (severalLines : Bool) (text : List Char) : Option (List Char × Nat) :=
  match text with
  | 'b' :: _ => some (['\x08'], 1)
  | 't' :: _ => some (['\t'], 1)
  | 'n' :: _ => some (['\n'], 1)
  | 'f' :: _ => some (['\x0c'], 1)
  | 'r' :: _ => some (['\r'], 1)
  | '\x22' :: _ => some (['\x22'], 1)
  | '\\' :: _ => some (['\\'], 1)
  | 'u' :: rest => (codeEscape? 4 rest).map fun c => ([c], 5)
  | 'U' :: rest => (codeEscape? 8 rest).map fun c => ([c], 9)
  | c :: _ =>
    if severalLines && isArraySpace c then
      match skipSpace text with
      | '\n' :: rest => some ([], text.length - (rest.dropWhile isArraySpace).length)
      | [] => some ([], text.length)
      | _ => none
    else none
  | [] => none

/-- Read a basic string behind its opening quotes. -/
def basicString? (severalLines : Bool) (text : List Char) : Option (List Char × List Char) :=
  match text with
  | [] => none
  | c :: rest =>
    let more : Option (List Char × List Char) :=
      (basicString? severalLines rest).map fun (string, after) => (c :: string, after)
    if c = Text.doubleQuote then
      if severalLines then
        if [Text.doubleQuote, Text.doubleQuote].isPrefixOf rest then some ([], rest.drop 2)
        else more
      else some ([], rest)
    else if c = '\\' then
      match escape? severalLines rest with
      | none => none
      | some (shown, count) =>
        (basicString? severalLines (rest.drop count)).map fun (string, after) =>
          (shown ++ string, after)
    else if if severalLines then isForbiddenInLines c else isForbidden c then none
    else more
termination_by text.length
decreasing_by
  · simp
  · simp only [List.length_drop, List.length_cons]
    omega

/-- Read a literal string of one line behind its opening quote. -/
def literalString? (text : List Char) : Option (List Char × List Char) :=
  let string := text.takeWhile (· != Text.singleQuote)
  if string.any isForbidden || string.length = text.length then none
  else some (string, text.drop (string.length + 1))

/-- Read a literal string of several lines behind its opening quotes. -/
def literalLines? (text : List Char) : Option (List Char × List Char) :=
  match text with
  | [] => none
  | c :: rest =>
    if (List.replicate 3 Text.singleQuote).isPrefixOf (c :: rest) then some ([], rest.drop 2)
    else if isForbiddenInLines c then none
    else (literalLines? rest).map fun (string, after) => (c :: string, after)

/-- Up to two quotes that stand directly behind the closing quotes belong to the string. -/
def closingQuotes (quote : Char) (string after : List Char) : List Char × List Char :=
  let extra := (after.take 2).takeWhile (· == quote)
  (string ++ extra, after.drop extra.length)

/-- A string of several lines does not start with the line break behind its opening quotes. -/
def skipFirstBreak (text : List Char) : List Char :=
  match text with
  | '\n' :: rest => rest
  | _ => text

/-- Read a string, if the text starts with one. -/
def string? (text : List Char) : Option (List Char × List Char) :=
  if (List.replicate 3 Text.doubleQuote).isPrefixOf text then
    (basicString? true (skipFirstBreak (text.drop 3))).map fun (string, after) =>
      closingQuotes Text.doubleQuote string after
  else if (List.replicate 3 Text.singleQuote).isPrefixOf text then
    (literalLines? (skipFirstBreak (text.drop 3))).map fun (string, after) =>
      closingQuotes Text.singleQuote string after
  else
    match text with
    | '\x22' :: rest => basicString? false rest
    | '\x27' :: rest => literalString? rest
    | _ => none

/-- Whether `c` can stand in a key without quotes. -/
def isBareKey (c : Char) : Bool :=
  c.isAlphanum || c == '-' || c == '_'

/-- Whether `c` can start a key. -/
def startsKey (c : Char) : Bool :=
  isBareKey c || c == Text.doubleQuote || c == Text.singleQuote

/-- Read one part of a key. -/
def keyPart? (text : List Char) : Option (String × List Char) :=
  match text with
  | [] => none
  | c :: rest =>
    if isBareKey c then
      some (String.ofList (text.takeWhile isBareKey), text.dropWhile isBareKey)
    else
      let quoted : Option (List Char × List Char) :=
        if c = Text.doubleQuote then basicString? false rest
        else if c = Text.singleQuote then literalString? rest
        else none
      quoted.map fun (string, after) => (String.ofList string, after)

/-- Read a key of at most `fuel` parts: parts with dots between them, and blanks around each. -/
def key? (fuel : Nat) (text : List Char) : Option (List String × List Char) :=
  match fuel with
  | 0 => none
  | fuel + 1 =>
    match keyPart? text with
    | none => none
    | some (part, after) =>
      match skipSpace after with
      | '.' :: rest => (key? fuel (skipSpace rest)).map fun (parts, after) => (part :: parts, after)
      | rest => some ([part], rest)

end ElmReach.Toml
