import ElmReach.Source.Token

/-!
# Top-level declarations

The outline of a source text has one token for each top-level declaration: comments, statements
(module and import), type aliases, custom types and functions, and whatever else stands in the
first column. A declaration ends before the first line break that a letter follows. A type
annotation and the definition of the same name that follows it are one declaration.
-/

namespace ElmReach.Declaration

open Text

/-- Whether a word ends in front of the text. -/
def atWordEnd (text : List Char) : Bool :=
  !text.head?.any isWordChar

/-- What follows the word, if the text starts with it as a whole word. -/
def afterWord? (word text : List Char) : Option (List Char) :=
  if word.isPrefixOf text && atWordEnd (text.drop word.length) then some (text.drop word.length)
  else none

/-- What follows `word` and at least one blank, if the text starts with them. -/
def afterBlanks? (word text : List Char) : Option (List Char) :=
  if word.isPrefixOf text && (text.drop word.length).head?.any isBlank then
    some ((text.drop word.length).dropWhile isBlank)
  else none

/-- The word in front of `module` in a statement for a port module. -/
def portWord : List Char := ['p', 'o', 'r', 't']

/-- The word in front of `module` in a statement for an effect module. -/
def effectWord : List Char := ['e', 'f', 'f', 'e', 'c', 't']

/-- The word that starts a type declaration. -/
def typeWord : List Char := ['t', 'y', 'p', 'e']

/-- The word that makes a type declaration an alias. -/
def aliasWord : List Char := ['a', 'l', 'i', 'a', 's']

/-- The text from the keyword of a port or effect module on. -/
def specialModule? (text : List Char) : Option (List Char) :=
  ((afterBlanks? portWord text).or (afterBlanks? effectWord text)).filter fun rest =>
    (afterWord? Statement.moduleKeyword rest).isSome

/-- Whether the text declares a type alias. -/
def isTypeAlias (text : List Char) : Bool :=
  (afterBlanks? typeWord text).any fun rest => (afterWord? aliasWord rest).isSome

/-- Whether the text declares a type. -/
def isType (text : List Char) : Bool :=
  (afterWord? typeWord text).isSome

/-- Whether `c` can start the name of a function. -/
def isFunctionStart (c : Char) : Bool :=
  ('a' ≤ c && c ≤ 'z') || c == '_'

/-- The function name at the front of the text, and what follows it. -/
def functionName? : List Char → Option (List Char × List Char)
  | c :: rest =>
    if isFunctionStart c then some (c :: rest.takeWhile isWordChar, rest.dropWhile isWordChar)
    else none
  | [] => none

/-- The name that a type annotation at the front of the text is for: a name and a single colon. -/
def annotated? (text : List Char) : Option (List Char) :=
  match functionName? text with
  | none => none
  | some (name, rest) =>
    match rest.dropWhile isBlank with
    | ':' :: ':' :: _ => none
    | ':' :: _ => some name
    | _ => none

/-- The name that a definition at the front of the text is for: a name and, on the same line, an
equals sign; the first one must not be doubled. -/
def defined? (text : List Char) : Option (List Char) :=
  match functionName? text with
  | none => none
  | some (name, rest) =>
    match rest.dropWhile fun c => c != '=' && c != '\n' with
    | '=' :: '=' :: _ => none
    | '=' :: _ => some name
    | _ => none

/-- Number of characters by which a definition of `name` extends the annotation in front of
`rest`: the line break and the definition. -/
def definitionLength (name rest : List Char) : Nat :=
  match rest with
  | _ :: body =>
    if defined? body = some name then 1 + (Statement.span body).length else 0
  | [] => 0

/-- The type, function or other declaration that starts the text, by kind and length. -/
def ordinary (text : List Char) : TokenKind × Nat :=
  let value := Statement.span text
  if isTypeAlias value then (.typeAlias, value.length)
  else if isType value then (.customType, value.length)
  else
    match annotated? value with
    | some name => (.function, value.length + definitionLength name (text.drop value.length))
    | none => if (defined? value).isSome then (.function, value.length) else (.other, value.length)

/-- The declaration that starts the text, by kind and length, if the text starts with neither a
comment nor a plain module or import statement. -/
def classify (text : List Char) : TokenKind × Nat :=
  match specialModule? text with
  | some rest =>
    if Statement.startsWithKeyword Statement.moduleKeyword none rest then
      let body := Statement.span (rest.drop 6)
      (.moduleStatement (.ofSpan body), text.length - rest.length + 6 + body.length)
    else ordinary text
  | none => ordinary text

/-- The declaration that starts the text; `before` is the character in front of the text. -/
def next (before : Option Char) (start : Nat) (text : List Char) : Token :=
  match (Token.recognise? before text).getD (classify text) with
  | (kind, length) => Token.covering kind start length text

/-- A declaration that does not start with a line break covers at least one character. -/
theorem ordinary_length_pos {c : Char} {rest : List Char} (h : c ≠ '\n') :
    0 < (ordinary (c :: rest)).2 := by
  have hspan : 0 < (Statement.span (c :: rest)).length := by simp [Statement.span, h]
  unfold ordinary
  dsimp only
  split
  · exact hspan
  · split
    · exact hspan
    · split
      · exact Nat.add_pos_left hspan _
      · split <;> exact hspan

/-- A declaration is not empty, as it is looked for at no line break. -/
theorem classify_length_pos {c : Char} {rest : List Char} (h : c ≠ '\n') :
    0 < (classify (c :: rest)).2 := by
  unfold classify
  split
  · split
    · show 0 < _ - _ + 6 + _
      omega
    · exact ordinary_length_pos h
  · exact ordinary_length_pos h

/-- What starts with no blank has a declaration at its front that is not empty, so that the outline
gets on. -/
theorem length_text_next_pos (before : Option Char) (start : Nat) {c : Char} (rest : List Char)
    (h : isBlank c ≠ true) : 0 < (next before start (c :: rest)).text.length := by
  have hc : c ≠ '\n' := by
    rintro rfl
    exact h (by decide)
  have hlength : 0 < ((Token.recognise? before (c :: rest)).getD (classify (c :: rest))).2 := by
    cases hr : Token.recognise? before (c :: rest) with
    | none => exact classify_length_pos hc
    | some pair => exact Token.recognise?_length_pos hr
  simp only [next, Token.covering, List.length_take, List.length_cons]
  omega

/-- The declarations of a text that stands at offset `start` behind the character `before`. Blanks
between declarations are skipped. -/
def ofText (before : Option Char) (start : Nat) : List Char → List Token
  | [] => []
  | c :: rest =>
    if h : isBlank c then ofText (some c) (start + 1) rest
    else
      let token := next before start (c :: rest)
      token :: ofText token.text.getLast? token.stop ((c :: rest).drop token.text.length)
termination_by text => text.length
decreasing_by
  · simp
  · have := length_text_next_pos before start rest h
    simp only [List.length_drop, List.length_cons]
    omega

/-- The declarations of a whole source text. -/
def all (content : List Char) : List Token :=
  ofText none 0 content

end ElmReach.Declaration
