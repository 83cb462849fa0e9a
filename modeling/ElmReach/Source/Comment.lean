/-!
# Comments

A line comment starts with `--` and ends before the next line break. A block comment starts with
`{-` and ends behind the `-}` that closes it; block comments nest. A comment that is not closed
runs to the end of the text.

Texts are read from their front: each function says what is left behind a comment that starts
there. Offsets are the lengths of what lies in front.
-/

namespace ElmReach

/-- The two forms of a comment. -/
inductive CommentForm where
  | line
  | block
  deriving DecidableEq, Repr

/-- A comment of a source text. -/
structure Comment where
  /-- Line or block comment. -/
  form : CommentForm
  /-- Offset of its first character. -/
  start : Nat
  /-- Offset behind its last character. -/
  stop : Nat
  deriving DecidableEq, Repr

namespace Comment

/-- Whether a line comment starts the text. -/
def opensLine : List Char → Bool
  | '-' :: '-' :: _ => true
  | _ => false

/-- Whether a block comment starts the text. -/
def opensBlock : List Char → Bool
  | '{' :: '-' :: _ => true
  | _ => false

/-- What follows a line comment: the text from the next line break on. -/
def afterLine (text : List Char) : List Char :=
  text.dropWhile (· != '\n')

/-- What follows a block comment, read inside it with `depth` comments open. The comment ends at
the closer that makes as many closers as openers, so a closer in excess never ends it. -/
def afterBlock (depth : Int) : List Char → List Char
  | '{' :: '-' :: rest => afterBlock (depth + 1) rest
  | '-' :: '}' :: rest => if depth = 1 then rest else afterBlock (depth - 1) rest
  | _ :: rest => afterBlock depth rest
  | [] => []

/-- Passing over a line comment leaves no more than the text. -/
theorem length_afterLine_le (text : List Char) : (afterLine text).length ≤ text.length :=
  (List.dropWhile_suffix _).length_le

/-- Passing over a block comment leaves no more than the text. -/
theorem length_afterBlock_le (depth : Int) (text : List Char) :
    (afterBlock depth text).length ≤ text.length := by
  fun_induction afterBlock depth text <;> grind

/-- A line comment covers at least one character. -/
theorem length_takeWhile_pos_of_opensLine {text : List Char} (h : opensLine text = true) :
    0 < (text.takeWhile (· != '\n')).length := by
  unfold opensLine at h
  split at h
  · simp
  · simp at h

/-- A block comment covers at least one character. -/
theorem length_afterBlock_lt_of_opensBlock {text : List Char} (h : opensBlock text = true) :
    (afterBlock 0 text).length < text.length := by
  unfold opensBlock at h
  split at h
  · next rest =>
    have := length_afterBlock_le (0 + 1) rest
    simp only [afterBlock, List.length_cons]
    omega
  · simp at h

/-- The text without its comments. A block comment leaves a space, so that the words around it
stay apart; a line comment leaves the line break behind it. -/
def strip : List Char → List Char
  | '-' :: '-' :: rest => strip (afterLine rest)
  | '{' :: '-' :: rest => ' ' :: strip (afterBlock 1 rest)
  | c :: rest => c :: strip rest
  | [] => []
termination_by text => text.length
decreasing_by
  · have := length_afterLine_le rest
    simp only [List.length_cons]
    omega
  · have := length_afterBlock_le 1 rest
    simp only [List.length_cons]
    omega
  · simp

/-- Offset at which the line comment at `offset` ends. -/
def lineEnd (content : List Char) (offset : Nat) : Nat :=
  content.length - (afterLine (content.drop offset)).length

/-- Offset behind the block comment at `offset`. -/
def blockEnd (content : List Char) (offset : Nat) : Nat :=
  content.length - (afterBlock 0 (content.drop offset)).length

end Comment

end ElmReach
