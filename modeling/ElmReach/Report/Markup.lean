import ElmReach.Failure
import ElmReach.Text.Blank

/-!
# Marked texts

A text for the screen can hold tags: names in brackets that say how the text between them looks. A
tag starts with a small letter or one of three signs and ends with the next closing bracket. An odd
number of backslashes in front makes it a part of the text. What is shown is the text without its
tags. A closing tag closes the last open tag of its name, or the last one if it has no name, and
there must be such a tag.
-/

namespace ElmReach.Report.Markup

/-- Whether `c` can start a tag. -/
def startsTag (c : Char) : Bool :=
  ('a' ≤ c && c ≤ 'z') || c == '#' || c == '/' || c == '@'

/-- What stands between the brackets of a tag at the front of a text. -/
def tagAt? (text : List Char) : Option (List Char) :=
  match text with
  | '[' :: c :: rest =>
    let inside := rest.takeWhile fun c => c != '[' && c != ']'
    if startsTag c && (rest.drop inside.length).head? = some ']' then some (c :: inside) else none
  | _ => none

/-- A part of a marked text. -/
inductive Token where
  | char (c : Char)
  /-- A tag, and the number of backslashes in front of it. -/
  | tag (slashes : Nat) (inside : List Char)
  deriving DecidableEq, Repr

/-- The backslash. -/
def slash : Char := '\\'

/-- The parts of a marked text. -/
def tokens (text : List Char) : List Token :=
  match text with
  | [] => []
  | first :: rest =>
    let slashes := ((first :: rest).takeWhile (· == slash)).length
    match tagAt? ((first :: rest).drop slashes) with
    | some inside =>
      .tag slashes inside :: tokens ((first :: rest).drop (slashes + inside.length + 2))
    | none =>
      ((first :: rest).take (slashes + 1)).map .char ++
        tokens ((first :: rest).drop (slashes + 1))
termination_by text.length
decreasing_by
  all_goals
    simp only [List.length_drop, List.length_cons]
    omega

/-- The text of a tag. -/
def bracketed (inside : List Char) : List Char :=
  '[' :: inside ++ [']']

/-- A backslash at the end of a text is doubled, unless it is doubled already. -/
def escapeEnd (text : List Char) : List Char :=
  match text.reverse with
  | '\\' :: '\\' :: _ => text
  | '\\' :: _ => text ++ [slash]
  | _ => text

/-- The marked text that shows a text, tags included. -/
def escape (text : String) : String :=
  let parts := (tokens text.toList).flatMap fun
    | .char c => [c]
    | .tag slashes inside => List.replicate (2 * slashes + 1) slash ++ bracketed inside
  String.ofList (escapeEnd parts)

/-- A part of what is shown. -/
inductive Piece where
  /-- A text between tags. -/
  | plain (text : List Char)
  /-- A text that was escaped. -/
  | kept (text : List Char)
  | tag (inside : List Char)
  deriving DecidableEq, Repr

/-- Put a character in front of the first text. -/
def consChar (c : Char) : List Piece → List Piece
  | .plain text :: rest => .plain (c :: text) :: rest
  | pieces => .plain [c] :: pieces

/-- The texts and the tags of a marked text. -/
def pieces : List Token → List Piece
  | [] => []
  | .char c :: rest => consChar c (pieces rest)
  | .tag slashes inside :: rest =>
    .kept (List.replicate (slashes / 2) slash) ::
      (if slashes % 2 = 1 then .kept (bracketed inside) else .tag inside) :: pieces rest

/-- A bracket that starts no tag can have a backslash in front as well. -/
def dropSlashes : List Char → List Char
  | '\\' :: '[' :: rest => '[' :: dropSlashes rest
  | c :: rest => c :: dropSlashes rest
  | [] => []

/-- The short names of looks. -/
def shortNames : List (String × String) :=
  [("d", "dim"), ("b", "bold"), ("i", "italic"), ("u", "underline"), ("r", "reverse"),
    ("c", "conceal"), ("s", "strike"), ("uu", "underline2"), ("o", "overline")]

/-- The looks that have no colour, in their order. -/
def looks : List String :=
  ["bold", "dim", "italic", "underline", "blink", "blink2", "reverse", "conceal", "strike",
    "underline2", "frame", "encircle", "overline"]

/-- The name of a tag by which it is closed: what stands before an equals sign, in small letters,
and for tags of looks alone the looks in their order. -/
def tagName (inside : List Char) : List Char :=
  let lower := (inside.takeWhile (· != '=')).map Char.toLower
  let words := (Text.words lower).map fun word =>
    let name := String.ofList word
    (shortNames.lookup name).getD name
  if !words.isEmpty && words.all (· ∈ looks) then
    (" ".intercalate (looks.filter (· ∈ words))).toList
  else Text.trim lower

/-- What the pieces show; `opened` are the names of the open tags, the last one first. -/
def shown (opened : List (List Char)) : List Piece → Except Fault (List Char)
  | [] => .ok []
  | .plain text :: rest => do return dropSlashes text ++ (← shown opened rest)
  | .kept text :: rest => do return text ++ (← shown opened rest)
  | .tag inside :: rest =>
    match inside with
    | '/' :: closing =>
      match tagName closing, opened with
      | [], [] => .error (.strayTag (String.ofList (bracketed inside)))
      | [], _ :: below => shown below rest
      | name, _ =>
        if name ∈ opened then shown (opened.erase name) rest
        else .error (.strayTag (String.ofList (bracketed inside)))
    | _ => shown (tagName inside :: opened) rest

/-- What a marked text shows. -/
def plain (text : String) : Except Fault (List Char) :=
  shown [] (pieces (tokens text.toList))

end ElmReach.Report.Markup
