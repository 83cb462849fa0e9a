import ElmReach.Report.Block
import ElmReach.Source.Declaration
import ElmReach.Text.Blank

/-!
# The outline of a source file

Each declaration with its line, its kind and its first line; module and import statements are shown
by their canonical text.
-/

namespace ElmReach.Report

/-- The name of a kind of declaration. -/
def kindName : TokenKind → String
  | .comment _ => "comment"
  | .moduleStatement _ => "module_statement"
  | .importStatement _ => "import_statement"
  | .typeAlias => "type_alias"
  | .customType => "type_enum"
  | .function => "function"
  | .other => "none"
  | .marker => "none"

/-- The line on which a declaration starts, from one on. -/
def lineOf (content : List Char) (token : Token) : Nat :=
  (content.take token.start).count '\n' + 1

/-- A declaration in one line. -/
def summaryOf (token : Token) : String :=
  match token.kind with
  | .moduleStatement statement => statement.render
  | .importStatement statement => statement.render
  | _ => String.ofList (Text.trim (token.text.takeWhile (· != '\n')))

/-- Whether a token is a comment. -/
def isComment (token : Token) : Bool :=
  token.comment?.isSome

/-- The declarations of an outline. -/
def outlined (comments : Bool) (content : List Char) : List Token :=
  (Declaration.all content).filter fun token => comments || !isComment token

/-- The outline as JSON. -/
def outlineJson (comments : Bool) (content : List Char) : Json :=
  .list
    ((outlined comments content).map fun token =>
      .object
        [("kind", .text (kindName token.kind)), ("line", .number (lineOf content token)),
          ("summary", .text (summaryOf token))])

/-- The outline for reading. -/
def outlineTable (comments : Bool) (title : String) (content : List Char) : Table where
  title := title
  columns :=
    [{ header := "Line", side := .right }, { header := "Kind" }, { header := "Declaration" }]
  rows :=
    (outlined comments content).map fun token =>
      [toString (lineOf content token), kindName token.kind, summaryOf token]

end ElmReach.Report
