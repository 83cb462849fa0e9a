import ElmReach.Source.Statement

/-!
# Tokens

A source text is read as a sequence of tokens that cover it without gaps. Four things are
recognised: line comments, block comments, module statements and import statements. Any other
character is a marker of its own, so every text can be read.
-/

namespace ElmReach

open Text

/-- What a token was recognised as. -/
inductive TokenKind where
  | comment (form : CommentForm)
  | moduleStatement (statement : ModuleStatement)
  | importStatement (statement : ImportStatement)
  | typeAlias
  | customType
  | function
  /-- A top-level declaration of no known kind. -/
  | other
  /-- A single character in which nothing was recognised. -/
  | marker
  deriving DecidableEq, Repr

/-- A piece of a source text. -/
structure Token where
  /-- What the piece is. -/
  kind : TokenKind
  /-- Offset of its first character. -/
  start : Nat
  /-- Offset behind its last character. -/
  stop : Nat
  /-- The characters that it covers. -/
  text : List Char
  deriving DecidableEq, Repr

namespace Token

/-- The token of kind `kind` that covers the first `length` characters of the text. -/
def covering (kind : TokenKind) (start length : Nat) (text : List Char) : Token :=
  { kind, start, stop := start + length, text := text.take length }

/-- The comment or statement that starts the text, by kind and length; `before` is the character
in front of the text. The first of the four that fits is taken. -/
def recognise? (before : Option Char) (text : List Char) : Option (TokenKind × Nat) :=
  if Comment.opensLine text then
    some (.comment .line, (text.takeWhile (· != '\n')).length)
  else if Comment.opensBlock text then
    some (.comment .block, text.length - (Comment.afterBlock 0 text).length)
  else if Statement.startsWithKeyword Statement.moduleKeyword before text then
    let body := Statement.span (text.drop 6)
    some (.moduleStatement (.ofSpan body), 6 + body.length)
  else if Statement.startsWithKeyword Statement.importKeyword before text then
    let body := Statement.span (text.drop 6)
    some (.importStatement (.ofSpan body), 6 + body.length)
  else none

/-- The token that starts the text. At the end of the text it is a marker that covers nothing and
still moves on by one. -/
def next (before : Option Char) (start : Nat) (text : List Char) : Token :=
  match recognise? before text with
  | some (kind, length) => covering kind start length text
  | none => covering .marker start 1 text

/-- The token at an offset of the content. -/
def atOffset (content : List Char) (offset : Nat) : Token :=
  next (Statement.charBefore content offset) offset (content.drop offset)

/-- What is recognised covers at least one character. -/
theorem recognise?_length_pos {before : Option Char} {text : List Char} {kind : TokenKind}
    {length : Nat} (h : recognise? before text = some (kind, length)) : 0 < length := by
  unfold recognise? at h
  split at h
  · next hline =>
    have := Comment.length_takeWhile_pos_of_opensLine hline
    simp only [Option.some.injEq, Prod.mk.injEq] at h
    omega
  · split at h
    · next hblock =>
      have := Comment.length_afterBlock_lt_of_opensBlock hblock
      simp only [Option.some.injEq, Prod.mk.injEq] at h
      omega
    · split at h
      · simp only [Option.some.injEq, Prod.mk.injEq] at h
        omega
      · split at h
        · simp only [Option.some.injEq, Prod.mk.injEq] at h
          omega
        · simp at h

/-- A token covers at least one character of a text that has one. -/
theorem length_text_next_pos (before : Option Char) (start : Nat) (c : Char) (rest : List Char) :
    0 < (next before start (c :: rest)).text.length := by
  unfold next
  split
  · next h =>
    have := recognise?_length_pos h
    simp [covering]
    omega
  · simp [covering]

/-- The tokens of a text that stands at offset `start` behind the character `before`. -/
def ofText (before : Option Char) (start : Nat) : List Char → List Token
  | [] => []
  | c :: rest =>
    let token := next before start (c :: rest)
    token :: ofText token.text.getLast? token.stop ((c :: rest).drop token.text.length)
termination_by text => text.length
decreasing_by
  have := length_text_next_pos before start c rest
  simp only [List.length_drop, List.length_cons]
  omega

/-- The tokens of a whole source text. -/
def all (content : List Char) : List Token :=
  ofText none 0 content

/-- The text that a token reports: markers report none. -/
def value (token : Token) : List Char :=
  if token.kind = .marker then [] else token.text

/-- The comment that a token is. -/
def comment? (token : Token) : Option Comment :=
  match token.kind with
  | .comment form => some { form, start := token.start, stop := token.stop }
  | _ => none

/-- The module statement that a token is. -/
def moduleStatement? (token : Token) : Option ModuleStatement :=
  match token.kind with
  | .moduleStatement statement => some statement
  | _ => none

/-- The import statement that a token is. -/
def importStatement? (token : Token) : Option ImportStatement :=
  match token.kind with
  | .importStatement statement => some statement
  | _ => none

/-- Whether a token is a marker at a character that satisfies `test`. -/
def marks (test : Char → Bool) (token : Token) : Bool :=
  token.kind = .marker && token.text.any test

end Token

end ElmReach
