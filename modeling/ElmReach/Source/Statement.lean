import ElmReach.Source.Comment
import ElmReach.Source.Exposing
import ElmReach.Source.Name

/-!
# Module and import statements

A statement starts with its keyword and ends before the first line break that a letter follows,
because a letter in the first column starts the next declaration. Its text is read without its
comments and with its blanks collapsed: a name, for imports an optional `as` word, and an optional
exposing list. A malformed statement has an empty name.

Each statement has a canonical text, which reads back as the same statement.
-/

namespace ElmReach

open Text

/-- The declaration by which a file names its module. -/
structure ModuleStatement where
  /-- Dotted name of the module, empty if the statement is malformed. -/
  name : String
  /-- Exposed entries in source order. -/
  exposing : List String
  deriving DecidableEq, Repr

/-- The declaration by which a file imports another module. -/
structure ImportStatement where
  /-- Dotted name of the imported module, empty if the statement is malformed. -/
  name : String
  /-- The name given with `as`. -/
  asName : Option String
  /-- Exposed entries in source order. -/
  exposing : List String
  deriving DecidableEq, Repr

namespace Statement

/-- The keyword of a module statement. -/
def moduleKeyword : List Char := ['m', 'o', 'd', 'u', 'l', 'e']

/-- The keyword of an import statement. -/
def importKeyword : List Char := ['i', 'm', 'p', 'o', 'r', 't']

/-- Whether a letter starts the text. -/
def startsWithLetter : List Char → Bool
  | c :: _ => isLetter c
  | [] => false

/-- The text up to the first line break that a letter follows, or all of it. -/
def span : List Char → List Char
  | [] => []
  | c :: rest => if c = '\n' ∧ startsWithLetter rest then [] else c :: span rest

/-- Offset at which the statement at `offset` ends. -/
def endOffset (content : List Char) (offset : Nat) : Nat :=
  min offset content.length + (span (content.drop offset)).length

/-- The characters that may follow a keyword. -/
def endsKeyword (c : Char) : Bool :=
  c == ' ' || c == '\n' || c == '{'

/-- Whether the text starts with `keyword` as a whole word; `before` is the character in front of
the text. -/
def startsWithKeyword (keyword : List Char) (before : Option Char) (text : List Char) : Bool :=
  keyword.isPrefixOf text && !before.any isWordChar &&
    (text.drop keyword.length).head?.any endsKeyword

/-- The character in front of an offset. -/
def charBefore (content : List Char) (offset : Nat) : Option Char :=
  if offset = 0 then none else content[offset - 1]?

/-- Whether `keyword` stands at `offset` as a whole word. -/
def keywordAt (content : List Char) (offset : Nat) (keyword : List Char) : Bool :=
  startsWithKeyword keyword (charBefore content offset) (content.drop offset)

/-- The text of a statement without comments and with single spaces between its words. -/
def plain (span : List Char) : List Char :=
  collapse (Comment.strip span)

/-- The word given with `as`, and what follows it. The text is collapsed and starts behind a
name. -/
def asClause? : List Char → Option (List Char × List Char)
  | ' ' :: 'a' :: 's' :: ' ' :: rest =>
    let length := Name.wordLength rest
    if length = 0 then none else some (rest.take length, rest.drop length)
  | _ => none

end Statement

namespace ModuleStatement

open Statement

/-- Read a module statement from its text behind the keyword. -/
def ofSpan (span : List Char) : ModuleStatement :=
  let text := plain span
  { name := String.ofList (text.take (Name.dottedLength text))
    exposing := Exposing.entries text }

/-- Read the module statement whose keyword ends at `offset`, with the offset of its end. -/
def parse (content : List Char) (offset : Nat) : ModuleStatement × Nat :=
  (ofSpan (span (content.drop offset)), endOffset content offset)

/-- The canonical text of the statement. -/
def render (statement : ModuleStatement) : String :=
  String.ofList
    (moduleKeyword ++ ' ' :: statement.name.toList ++ Exposing.render statement.exposing)

end ModuleStatement

namespace ImportStatement

open Statement

/-- Read an import statement from its text behind the keyword. -/
def ofSpan (span : List Char) : ImportStatement :=
  let text := plain span
  let length := Name.dottedLength text
  if length = 0 then { name := "", asName := none, exposing := [] }
  else
    let name := String.ofList (text.take length)
    match asClause? (text.drop length) with
    | none => { name, asName := none, exposing := Exposing.entries (text.drop length) }
    | some (word, rest) =>
      { name, asName := some (String.ofList word), exposing := Exposing.entries rest }

/-- Read the import statement whose keyword ends at `offset`, with the offset of its end. -/
def parse (content : List Char) (offset : Nat) : ImportStatement × Nat :=
  (ofSpan (span (content.drop offset)), endOffset content offset)

/-- The canonical text of the `as` clause, with a space in front; empty if there is none. -/
def renderAs : Option String → List Char
  | none => []
  | some word => ' ' :: 'a' :: 's' :: ' ' :: word.toList

/-- The canonical text of the statement. -/
def render (statement : ImportStatement) : String :=
  String.ofList
    (importKeyword ++ ' ' :: statement.name.toList ++ renderAs statement.asName ++
      Exposing.render statement.exposing)

end ImportStatement

end ElmReach
