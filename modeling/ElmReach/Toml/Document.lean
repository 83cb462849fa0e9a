import ElmReach.Toml.Scan

/-!
# TOML documents

A document is a sequence of statements, one to a line: assignments, table headers and headers of
arrays of tables. Reading it gives its table, or the first flaw of the text.
-/

namespace ElmReach.Toml

/-- What has been read of a document. -/
structure Document where
  /-- The table of the whole document. -/
  entries : Entries
  /-- The header of the section in which the next assignment stands. -/
  header : List String
  /-- The number of the section. -/
  number : Nat

namespace Document

/-- The document in which nothing has been read. -/
def start : Document := { entries := [], header := [], number := 0 }

/-- Read an assignment. -/
def readAssignment (document : Document) (room : Nat) (text : List Char) :
    Except Flaw (Document × List Char) :=
  match key? text.length text with
  | some (key, '=' :: rest) => do
    let (value, after) ← readValue (2 * rest.length + 2) room (skipSpace rest)
    let assign := Entries.assign document.number key.dropLast (key.getLast?.getD "") value
    let entries ← expect (document.entries.within document.header assign)
    return ({ document with entries }, after)
  | _ => .error .malformed

/-- Read a header between brackets and start its section. -/
def header? (document : Document) (text : List Char) : Option (Document × List Char) :=
  let arrays := ['[', '['].isPrefixOf text
  let close := if arrays then [']', ']'] else [']']
  match key? text.length (skipSpace (text.drop close.length)) with
  | none => none
  | some (key, rest) =>
    let name := key.getLast?.getD ""
    let declare := if arrays then Entries.declareNext name else Entries.declare name
    if close.isPrefixOf rest then
      (document.entries.within key.dropLast declare).map fun entries =>
        ({ entries, header := key, number := document.number + 1 }, rest.drop close.length)
    else none

/-- Read a statement, if the text starts with one. -/
def readStatement (document : Document) (room : Nat) (text : List Char) :
    Except Flaw (Document × List Char) :=
  match text with
  | [] => .ok (document, text)
  | c :: _ =>
    if startsKey c then document.readAssignment room text
    else if c = '[' then expect (document.header? text)
    else if c = '#' ∨ c = '\n' then .ok (document, text)
    else .error .malformed

/-- Read all lines of a text. -/
def readLines (document : Document) (room : Nat) (text : List Char) : Except Flaw Document :=
  match document.readStatement room (skipSpace text) with
  | .error flaw => .error flaw
  | .ok (grown, behind) =>
    match skipComment? (skipSpace behind) with
    | some [] => .ok grown
    | some ('\n' :: rest) =>
      if rest.length < text.length then readLines grown room rest else .error .malformed
    | _ => .error .malformed
termination_by text.length

end Document

/-- A text with plain line feeds for the line breaks that are written with a return. -/
def plainBreaks : List Char → List Char
  | '\r' :: '\n' :: rest => '\n' :: plainBreaks rest
  | c :: rest => c :: plainBreaks rest
  | [] => []

/-- The table of a document whose values are nested in a room of this size. -/
def read (room : Nat) (text : List Char) : Except Flaw (Assoc Value) := do
  let document ← Document.start.readLines room (plainBreaks text)
  return entryValues document.entries

end ElmReach.Toml
