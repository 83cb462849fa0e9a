import ElmReach.Source.Token

/-!
# Summaries

What one pass over a source text collects: its comments, the module statement, the imports, and
where line breaks and blanks stand outside of comments and statements.
-/

namespace ElmReach

/-- What a source text holds, each list in source order. -/
structure Summary where
  comments : List Comment
  /-- The module statements; the first one names the module. -/
  moduleStatements : List ModuleStatement
  imports : List ImportStatement
  /-- Offsets of the line breaks. -/
  newlines : List Nat
  /-- Offsets of the spaces and tabs. -/
  spaces : List Nat
  deriving DecidableEq, Repr

namespace Summary

/-- Collect what the tokens hold. -/
def ofTokens (tokens : List Token) : Summary where
  comments := tokens.filterMap Token.comment?
  moduleStatements := tokens.filterMap Token.moduleStatement?
  imports := tokens.filterMap Token.importStatement?
  newlines := (tokens.filter (Token.marks (· == '\n'))).map Token.start
  spaces := (tokens.filter (Token.marks fun c => c == ' ' || c == '\t')).map Token.start

/-- The summary of a source text. -/
def ofContent (content : List Char) : Summary :=
  ofTokens (Token.all content)

/-- The statement that names the module. -/
def moduleStatement (summary : Summary) : Option ModuleStatement :=
  summary.moduleStatements.head?

end Summary

end ElmReach
