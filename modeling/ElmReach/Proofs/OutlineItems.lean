import ElmReach.Proofs.FirstWord
import ElmReach.Proofs.Listing
import ElmReach.Proofs.OutlineCover
import ElmReach.Report.Outline
import Mathlib.Tactic.Common

/-!
# The outline of written items

A source file is written as a list of items, one below the other: statements, types and functions.
Each item starts with a letter, and no line in it does but the definition below an annotation. So
the outline has one declaration for each item, with its text and its kind, whatever stands in the
items around it.
-/

namespace ElmReach

open Text Statement Token

namespace Statement

/-- No letter follows a line break in the text, so that a statement takes all of it. The lines below
the first one are indented. -/
def InOnePiece (text : List Char) : Prop :=
  ∀ front rest, text = front ++ '\n' :: rest → startsWithLetter rest = false

variable {text rest : List Char}

/-- A text in which no letter follows a line break is one that a statement takes as a whole. -/
theorem inOnePiece_iff : InOnePiece text ↔ span text = text := by
  constructor
  · exact span_eq_self
  · rintro hspan front rest rfl
    by_contra hletter
    have hend := span_append_letter (by simpa using hletter) front
    have hle := length_span_le front
    rw [← hend, hspan, List.length_append, List.length_cons] at hle
    omega

/-- Whether a letter follows a line break can be decided by reading a statement. -/
instance (text : List Char) : Decidable (InOnePiece text) :=
  decidable_of_iff _ inOnePiece_iff.symm

/-- A text on one line is in one piece. -/
theorem inOnePiece_of_notMem (h : '\n' ∉ text) : InOnePiece text :=
  inOnePiece_iff.mpr (span_of_not_mem h)

/-- The end of a text in one piece is in one piece too. -/
theorem InOnePiece.right {front : List Char} (h : InOnePiece (front ++ text)) :
    InOnePiece text := by
  rintro before rest rfl
  exact h (front ++ before) rest (List.append_assoc _ _ _).symm

/-- A statement that starts the text in front of the next one is all of the text. -/
theorem InOnePiece.span_append (h : InOnePiece text) (hrest : EndsStatement rest) :
    span (text ++ rest) = text := by
  have hspan := inOnePiece_iff.mp h
  rcases hrest with rfl | ⟨next, rfl, hletter⟩
  · rw [List.append_nil, hspan]
  · rw [span_append_letter hletter, hspan]

/-- What ends a statement is a line break or nothing, so that it starts with no other character. -/
theorem EndsStatement.head?_ne (hrest : EndsStatement rest) {c : Char} (hc : c ≠ '\n') :
    rest.head? ≠ some c := by
  rcases hrest with rfl | ⟨next, rfl, -⟩
  · simp
  · simpa using hc.symm

end Statement

/-! Statements that were read have no line break in their canonical texts: what they hold comes from
a text whose blanks are collapsed. -/

/-- The text of an exposed entry is copied from the list, and so it holds only what the list
holds. -/
theorem Exposing.isInfix_of_mem_entries {text : List Char} {entry : String}
    (h : entry ∈ entries text) : entry.toList <:+: text := by
  unfold entries at h
  split at h
  · exact absurd h List.not_mem_nil
  · next list hfind =>
    simp only [List.mem_map, List.mem_filter] at h
    obtain ⟨_, ⟨⟨piece, hpiece, rfl⟩, -⟩, rfl⟩ := h
    obtain ⟨hplace, -⟩ := nested_of_mem_split hpiece
    obtain ⟨front, back, hsplit, -, -⟩ := exists_append_trim piece
    have htrim : trim piece <:+: piece := ⟨front, back, hsplit.symm⟩
    rw [String.toList_ofList]
    exact htrim.trans (hplace.trans (find?_suffix hfind).isInfix)

/-- A list is written on one line if its entries are. -/
theorem Exposing.break_notMem_render {written : List String}
    (h : ∀ entry ∈ written, '\n' ∉ entry.toList) : '\n' ∉ render written := by
  have hjoin : '\n' ∉ [',', ' '].intercalate (written.map String.toList) := by
    induction written with
    | nil => simp
    | cons entry others ih =>
      obtain ⟨hentry, hothers⟩ := List.forall_mem_cons.mp h
      cases others with
      | nil => simpa using hentry
      | cons next more =>
        rw [List.map_cons, List.map_cons, List.intercalate_cons_cons]
        have hrest := ih hothers
        rw [List.map_cons] at hrest
        simp [hentry, hrest]
  unfold render
  split
  · simp
  · simp [keyword, hjoin]

/-- A plain text has no line breaks, because its blanks are single spaces. Neither has any piece of
it. -/
theorem Statement.break_notMem_of_isInfix_plain {piece body : List Char}
    (h : piece <:+: plain body) : '\n' ∉ piece := by
  intro hbreak
  exact absurd ((tidy_plain body).spaces '\n' (h.subset hbreak) (by decide)) (by decide)

/-- Parsing leaves no line break in a module statement, because it collapses the blanks. -/
theorem ModuleStatement.break_notMem_render_ofSpan (body : List Char) :
    '\n' ∉ (ofSpan body).render.toList := by
  have hname : '\n' ∉ (ofSpan body).name.toList := by
    rw [ofSpan, String.toList_ofList]
    exact break_notMem_of_isInfix_plain (List.take_prefix _ _).isInfix
  have hentries : '\n' ∉ Exposing.render (ofSpan body).exposing := by
    apply Exposing.break_notMem_render
    intro entry hentry
    exact break_notMem_of_isInfix_plain (Exposing.isInfix_of_mem_entries hentry)
  rw [toList_render, ModuleStatement.body]
  simp [moduleKeyword, hname, hentries]

/-- Parsing leaves no line break in an import statement, because it collapses the blanks. -/
theorem ImportStatement.break_notMem_render_ofSpan (body : List Char) :
    '\n' ∉ (ofSpan body).render.toList := by
  obtain ⟨hwords, rest, hsuffix, hlist⟩ := exists_suffix_of_ofSpan body
  have hname : '\n' ∉ (ofSpan body).name.toList := by
    rw [toList_name_ofSpan]
    exact break_notMem_of_isInfix_plain (List.take_prefix _ _).isInfix
  have hclause : '\n' ∉ renderAs (ofSpan body).asName := by
    cases hasName : (ofSpan body).asName with
    | none => simp [renderAs]
    | some word =>
      have hdotted : Name.IsDotted word.toList := .word (hwords word (by rw [hasName]; rfl))
      have hword : '\n' ∉ word.toList := by
        intro hbreak
        exact absurd (hdotted.not_isBlank '\n' hbreak) (by decide)
      simp [renderAs, hword]
  have hentries : '\n' ∉ Exposing.render (ofSpan body).exposing := by
    apply Exposing.break_notMem_render
    intro entry hentry
    rw [hlist] at hentry
    have hinfix := (Exposing.isInfix_of_mem_entries hentry).trans hsuffix.isInfix
    exact break_notMem_of_isInfix_plain hinfix
  rw [toList_render, ImportStatement.body]
  simp [importKeyword, hname, hclause, hentries]

namespace Declaration

/-- The definition of a function as it is written: its name, what stands between the name and the
equals sign, and what stands behind the sign. -/
structure Definition where
  name : List Char
  args : List Char
  body : List Char
  deriving DecidableEq, Repr

/-- The text of a definition: its name, its arguments, the equals sign and its body. -/
def Definition.text (definition : Definition) : List Char :=
  definition.name ++ (definition.args ++ '=' :: definition.body)

/-- The arguments follow the name behind a space, on the same line, and are no annotation. The
equals sign is the first one and stands alone. -/
structure Definition.IsWritten (definition : Definition) : Prop where
  name : IsFunctionName definition.name
  argsSpace : ∀ c ∈ definition.args.head?, c = ' '
  argsEquals : '=' ∉ definition.args
  argsBreak : '\n' ∉ definition.args
  argsColon : (definition.args.dropWhile isBlank).head? ≠ some ':'
  body : definition.body.head? ≠ some '='
  onePiece : InOnePiece definition.text

/-- An item of a source file, in one of the forms that the outline tells apart. -/
inductive Item where
  | moduleStatement (statement : ModuleStatement)
  | importStatement (statement : ImportStatement)
  | typeAlias (rest : List Char)
  | customType (rest : List Char)
  | function (definition : Definition)
  /-- A definition with an annotation of this type above it. -/
  | annotated (type : List Char) (definition : Definition)
  deriving DecidableEq, Repr

/-- The text of an annotation: the name, a colon, and the type. -/
def annotationText (name type : List Char) : List Char :=
  name ++ ' ' :: ':' :: ' ' :: type

namespace Item

/-- The text of an item, as it stands in the file. An annotation and its definition are one item on
two lines. -/
def text : Item → List Char
  | moduleStatement statement => statement.render.toList
  | importStatement statement => statement.render.toList
  | typeAlias rest => typeWord ++ ' ' :: (aliasWord ++ ' ' :: rest)
  | customType rest => typeWord ++ ' ' :: rest
  | function definition => definition.text
  | annotated type definition => annotationText definition.name type ++ '\n' :: definition.text

/-- The name of an item's kind, as the outline prints it. -/
def kindName : Item → String
  | moduleStatement _ => "module_statement"
  | importStatement _ => "import_statement"
  | typeAlias _ => "type_alias"
  | customType _ => "type_enum"
  | function _ => "function"
  | annotated _ _ => "function"

/-- A statement is one that was read, a type starts with a capital letter, a definition is written
as such, and no line starts with a letter but the definition below its annotation. -/
def IsWritten : Item → Prop
  | moduleStatement statement =>
    ∃ content offset, (ModuleStatement.parse content offset).1 = statement
  | importStatement statement =>
    ∃ content offset, (ImportStatement.parse content offset).1 = statement
  | typeAlias rest => InOnePiece (typeAlias rest).text
  | customType rest =>
    (∃ c ∈ rest.head?, 'A' ≤ c ∧ c ≤ 'Z') ∧ InOnePiece (customType rest).text
  | function definition => definition.IsWritten
  | annotated type definition =>
    InOnePiece (annotationText definition.name type) ∧ definition.IsWritten

end Item

section Definition

variable {definition : Definition} {rest : List Char}

/-- A definition has its arguments behind a space, so that its name ends as a word does. -/
theorem Definition.IsWritten.atWordEnd (h : definition.IsWritten) (rest : List Char) :
    Declaration.atWordEnd (definition.args ++ '=' :: definition.body ++ rest) = true := by
  cases hargs : definition.args with
  | nil => exact (by decide : (!isWordChar '=') = true)
  | cons c others =>
    obtain rfl : c = ' ' := h.argsSpace c (by rw [hargs]; rfl)
    exact (by decide : (!isWordChar ' ') = true)

/-- A definition is for its name, which is read up to its arguments, and the first equals sign shows
that it is one. -/
theorem Definition.IsWritten.defined?_append (h : definition.IsWritten)
    (hrest : EndsStatement rest) : defined? (definition.text ++ rest) = some definition.name := by
  have hargs : ∀ c ∈ definition.args, (c != '=' && c != '\n') = true := by
    intro c hc
    have hequals : c ≠ '=' := by
      rintro rfl
      exact h.argsEquals hc
    have hbreak : c ≠ '\n' := by
      rintro rfl
      exact h.argsBreak hc
    simp [hequals, hbreak]
  have hname := h.name.functionName?_append (h.atWordEnd rest)
  have hsign : (definition.args ++ '=' :: definition.body ++ rest).dropWhile
      (fun c => c != '=' && c != '\n') = '=' :: (definition.body ++ rest) := by
    rw [List.append_assoc, List.dropWhile_append_of_pos hargs]
    rfl
  have hsingle : (definition.body ++ rest).head? ≠ some '=' := by
    cases hbody : definition.body with
    | nil => exact hrest.head?_ne (by decide)
    | cons c others => simpa [hbody] using h.body
  rw [Definition.text, List.append_assoc, defined?, hname]
  dsimp only
  rw [hsign]
  split
  · next others heq =>
    rw [(List.cons.inj heq).2] at hsingle
    exact absurd rfl hsingle
  · rfl
  · next hnot => exact absurd rfl (hnot _)

/-- A definition is no annotation, since no colon follows its name. -/
theorem Definition.IsWritten.annotated?_eq_none (h : definition.IsWritten) :
    annotated? definition.text = none := by
  have hend := h.atWordEnd []
  rw [List.append_nil] at hend
  have hcolon : ((definition.args ++ '=' :: definition.body).dropWhile isBlank).head? ≠
      some ':' := by
    rw [List.dropWhile_append]
    split
    · exact (by decide : some '=' ≠ some ':')
    · next hne =>
      rw [List.head?_append_of_ne_nil _ (by simpa using hne)]
      exact h.argsColon
  rw [Definition.text, annotated?, h.name.functionName?_append hend]
  dsimp only
  split
  · rfl
  · next others heq =>
    rw [heq] at hcolon
    exact absurd rfl hcolon
  · rfl

end Definition

/-- The piece at the front of the text is found as a declaration of this kind. What stands behind
the piece matters only in that it ends a statement. -/
def FoundAs (before : Option Char) (piece rest : List Char) (name : String) : Prop :=
  ∃ kind, Report.kindName kind = name ∧
    (recognise? before (piece ++ rest)).getD (classify (piece ++ rest)) = (kind, piece.length)

section FoundAs

variable {before : Option Char} {rest : List Char}

/-- A statement is found by its keyword, and it is read up to its end if no letter follows a line
break in it. -/
theorem foundAs_keyword {keyword body : List Char} (hkeyword : keyword ∈ keywords)
    (hpiece : InOnePiece (keyword ++ ' ' :: body)) (hbefore : before.any isWordChar = false)
    (hrest : EndsStatement rest) :
    FoundAs before (keyword ++ ' ' :: body) rest
      (Report.kindName (kindOf keyword (' ' :: body))) := by
  have hspan : span (' ' :: body ++ rest) = ' ' :: body := hpiece.right.span_append hrest
  have hends : (' ' :: body ++ rest).head?.any endsKeyword = true := rfl
  refine ⟨_, rfl, ?_⟩
  rw [List.append_assoc, recognise?_keyword_append hkeyword hbefore hends, hspan, Option.getD_some]

/-- What is found behind the word `type` is found by the text up to the next item. -/
theorem found_type {body : List Char} (hpiece : InOnePiece (typeWord ++ ' ' :: body))
    (hrest : EndsStatement rest) (before : Option Char) :
    (recognise? before (typeWord ++ ' ' :: body ++ rest)).getD
        (classify (typeWord ++ ' ' :: body ++ rest)) =
      (if isTypeAlias (typeWord ++ ' ' :: body) then .typeAlias else .customType,
        (typeWord ++ ' ' :: body).length) := by
  have hspan := hpiece.span_append hrest
  have hword : firstWord (typeWord ++ ' ' :: body ++ rest) = typeWord := by
    rw [List.append_assoc]
    exact firstWord_append (isWordChar_of_mem_reservedWords (by decide))
      (by decide : (!isWordChar ' ') = true)
  have htype : isType (typeWord ++ ' ' :: body) = true := rfl
  rw [recognise?_eq_none rfl (by rw [hword]; decide) (by rw [hword]; decide),
    Option.getD_none, classify_eq_ordinary (by rw [hword]; decide) (by rw [hword]; decide),
    ordinary, hspan]
  simp only [htype]
  split <;> rfl

/-- A type alias has two words in front, with a space behind each of them. -/
theorem isTypeAlias_alias (rest : List Char) :
    isTypeAlias (typeWord ++ ' ' :: (aliasWord ++ ' ' :: rest)) = true := by
  have hafter : afterBlanks? typeWord (typeWord ++ ' ' :: (aliasWord ++ ' ' :: rest)) =
      some (aliasWord ++ ' ' :: rest) := rfl
  rw [isTypeAlias, hafter]
  rfl

/-- A type whose name starts with a capital letter is no alias, since the word of an alias starts
with a small one. -/
theorem isTypeAlias_of_capital {c : Char} (hlow : 'A' ≤ c) (hhigh : c ≤ 'Z') (rest : List Char) :
    isTypeAlias (typeWord ++ ' ' :: c :: rest) = false := by
  have hletter : isAsciiLetter c = true := by simp [isAsciiLetter, hlow, hhigh]
  have hblank : isBlank c = false := by
    apply isBlank_of_isWordChar
    simp [isWordChar, isLetter_of_isAsciiLetter hletter]
  have hafter : afterBlanks? typeWord (typeWord ++ ' ' :: c :: rest) = some (c :: rest) := by
    have hspace : isBlank ' ' = true := by decide
    have hprefix : typeWord.isPrefixOf (typeWord ++ ' ' :: c :: rest) = true := by simp
    simp [afterBlanks?, hprefix, hspace, hblank]
  have hsmall : 'a' ≠ c := by
    rintro rfl
    exact absurd hhigh (by decide)
  have hnone : afterWord? aliasWord (c :: rest) = none := by
    simp [afterWord?, aliasWord, List.isPrefixOf, hsmall]
  rw [isTypeAlias, hafter, Option.any_some, hnone]
  rfl

/-- A definition is found as a function by its name, with the arguments and the body up to the end
of the statement. -/
theorem foundAs_definition {definition : Definition} (h : definition.IsWritten)
    (hrest : EndsStatement rest) (before : Option Char) :
    FoundAs before definition.text rest "function" := by
  have hspan := h.onePiece.span_append hrest
  have hordinary := h.name.found_eq_ordinary (h.atWordEnd rest) before
  have hend := h.atWordEnd []
  rw [List.append_nil] at hend
  have hword : firstWord definition.text ≠ typeWord := by
    rw [Definition.text, h.name.firstWord_append hend]
    rintro heq
    exact h.name.notReserved (by rw [heq]; decide)
  have hdefined := h.defined?_append (.inl rfl)
  rw [List.append_nil] at hdefined
  refine ⟨.function, rfl, ?_⟩
  rw [← List.append_assoc, ← Definition.text] at hordinary
  rw [hordinary, ordinary, hspan]
  simp [isTypeAlias_eq_false hword, isType_eq_false hword, h.annotated?_eq_none, hdefined]

/-- An annotation is found together with the definition below it, if both are for the same name.
They are one declaration then. -/
theorem foundAs_annotated {type : List Char} {definition : Definition}
    (hpiece : InOnePiece (annotationText definition.name type)) (h : definition.IsWritten)
    (hrest : EndsStatement rest) (before : Option Char) :
    FoundAs before (annotationText definition.name type ++ '\n' :: definition.text) rest
      "function" := by
  have hletter : startsWithLetter (definition.text ++ rest) = true := by
    rw [Definition.text, List.append_assoc]
    exact h.name.startsWithLetter _
  have hspan : span (annotationText definition.name type ++ '\n' :: (definition.text ++ rest)) =
      annotationText definition.name type :=
    hpiece.span_append (.inr ⟨_, rfl, hletter⟩)
  have hend (others : List Char) : atWordEnd (' ' :: ':' :: ' ' :: type ++ others) = true :=
    (by decide : (!isWordChar ' ') = true)
  have hordinary := h.name.found_eq_ordinary
    (hend ('\n' :: (definition.text ++ rest))) before
  have hend' := hend []
  rw [List.append_nil] at hend'
  have hword : firstWord (annotationText definition.name type) ≠ typeWord := by
    rw [annotationText, h.name.firstWord_append hend']
    rintro heq
    exact h.name.notReserved (by rw [heq]; decide)
  have hannotated : annotated? (annotationText definition.name type) = some definition.name := by
    rw [annotationText, annotated?, h.name.functionName?_append hend']
    rfl
  refine ⟨.function, rfl, ?_⟩
  rw [← List.append_assoc, ← annotationText] at hordinary
  rw [List.append_assoc, List.cons_append, hordinary, ordinary, hspan]
  simp [isTypeAlias_eq_false hword, isType_eq_false hword, hannotated, definitionLength,
    h.defined?_append hrest, h.onePiece.span_append hrest]
  omega

/-- An item is found in front of the next one: with its whole text and as an item of its kind. There
is one case for each form of an item. -/
theorem Item.IsWritten.foundAs {item : Item} (h : item.IsWritten)
    (hbefore : before.any isWordChar = false) (hrest : EndsStatement rest) :
    FoundAs before item.text rest item.kindName := by
  cases item with
  | moduleStatement statement =>
    obtain ⟨content, offset, rfl⟩ := h
    have hpiece := inOnePiece_of_notMem (ModuleStatement.break_notMem_render_ofSpan
      (span (content.drop offset)))
    rw [ModuleStatement.toList_render] at hpiece
    rw [Item.text, ModuleStatement.toList_render]
    exact foundAs_keyword (by decide) hpiece hbefore hrest
  | importStatement statement =>
    obtain ⟨content, offset, rfl⟩ := h
    have hpiece := inOnePiece_of_notMem (ImportStatement.break_notMem_render_ofSpan
      (span (content.drop offset)))
    rw [ImportStatement.toList_render] at hpiece
    rw [Item.text, ImportStatement.toList_render]
    exact foundAs_keyword (by decide) hpiece hbefore hrest
  | typeAlias body =>
    refine ⟨.typeAlias, rfl, ?_⟩
    rw [Item.text, found_type h hrest, isTypeAlias_alias]
    rfl
  | customType body =>
    obtain ⟨⟨c, hc, hlow, hhigh⟩, hpiece⟩ := h
    obtain ⟨others, rfl⟩ := List.head?_eq_some_iff.mp hc
    refine ⟨.customType, rfl, ?_⟩
    rw [Item.text, found_type hpiece hrest, isTypeAlias_of_capital hlow hhigh]
    rfl
  | function definition => exact foundAs_definition h hrest before
  | annotated type definition => exact foundAs_annotated h.1 h.2 hrest before

end FoundAs

/-- The text of some items, one below the other. Each of them starts on a line of its own. -/
def joined (items : List Item) : List Char :=
  ['\n'].intercalate (items.map Item.text)

/-- An item starts with a letter, which is how the item in front of it is ended. -/
theorem Item.IsWritten.startsWithLetter {item : Item} (h : item.IsWritten) (rest : List Char) :
    Statement.startsWithLetter (item.text ++ rest) = true := by
  cases item with
  | moduleStatement statement => rw [Item.text, ModuleStatement.toList_render]; rfl
  | importStatement statement => rw [Item.text, ImportStatement.toList_render]; rfl
  | typeAlias body => rfl
  | customType body => rfl
  | function definition =>
    rw [Item.text, Definition.text, List.append_assoc]
    exact h.name.startsWithLetter _
  | annotated type definition =>
    rw [Item.text, annotationText, List.append_assoc, List.append_assoc]
    exact h.2.name.startsWithLetter _

/-- The first item is the first declaration, and the outline goes on with the items below it. This
is the step of the induction on the items. -/
theorem ofText_item {item : Item} {before : Option Char} {rest : List Char} (h : item.IsWritten)
    (hbefore : before.any isWordChar = false) (hrest : EndsStatement rest) (start : Nat) :
    ∃ token, Report.kindName token.kind = item.kindName ∧ token.value = item.text ∧
      ofText before start (item.text ++ rest) =
        token :: ofText item.text.getLast? (start + item.text.length) rest := by
  obtain ⟨kind, hname, hfound⟩ := h.foundAs hbefore hrest
  have hletter := h.startsWithLetter rest
  have hnext : next before start (item.text ++ rest) =
      covering kind start item.text.length (item.text ++ rest) := by
    rw [next, hfound]
  have htext : (next before start (item.text ++ rest)).text = item.text := by
    rw [hnext]
    exact List.take_left
  have hstop : (next before start (item.text ++ rest)).stop = start + item.text.length := by
    rw [hnext]
    rfl
  obtain ⟨hkind, -, -, -⟩ := next_spec before start (item.text ++ rest)
  obtain ⟨c, others, hcons⟩ : ∃ c others, item.text ++ rest = c :: others := by
    apply List.exists_cons_of_ne_nil
    intro hnil
    rw [hnil] at hletter
    cases hletter
  have hblank : isBlank c = false := by
    rw [hcons] at hletter
    by_contra hc
    have hnone : isLetter c = false := isLetter_of_isBlank (by simpa using hc)
    rw [startsWithLetter, hnone] at hletter
    cases hletter
  refine ⟨next before start (item.text ++ rest), ?_, ?_, ?_⟩
  · rw [hnext]
    exact hname
  · rw [Token.value, if_neg hkind, htext]
  · rw [hcons] at htext hstop ⊢
    rw [ofText_cons_of_not_isBlank hblank htext hcons, hstop]

/-- Items on lines of their own are found one by one, each with its kind and its text. This goes by
induction on the items: each of them ends where the next one starts. -/
theorem map_ofText_joined {items : List Item} (h : ∀ item ∈ items, item.IsWritten)
    {before : Option Char} (hbefore : before.any isWordChar = false) (start : Nat) :
    (ofText before start (joined items)).map (fun token =>
        (Report.kindName token.kind, token.value)) =
      items.map fun item => (item.kindName, item.text) := by
  induction items generalizing before start with
  | nil => rw [joined, List.map_nil, List.intercalate_nil, ofText_nil]; rfl
  | cons item others ih =>
    obtain ⟨hitem, hothers⟩ := List.forall_mem_cons.mp h
    cases others with
    | nil =>
      obtain ⟨token, hkind, hvalue, heq⟩ := ofText_item hitem hbefore (.inl rfl) start
      rw [List.append_nil] at heq
      rw [joined, List.map_singleton, List.intercalate_singleton, heq, ofText_nil,
        List.map_singleton, List.map_singleton, hkind, hvalue]
    | cons next more =>
      have hsplit : joined (item :: next :: more) =
          item.text ++ '\n' :: joined (next :: more) := by
        simp [joined, List.intercalate_cons_cons]
      have hletter : startsWithLetter (joined (next :: more)) = true := by
        have hnext := (List.forall_mem_cons.mp hothers).1
        cases more with
        | nil => simpa [joined] using hnext.startsWithLetter []
        | cons third more =>
          rw [joined, List.map_cons, List.map_cons, List.intercalate_cons_cons, List.append_assoc]
          exact hnext.startsWithLetter _
      obtain ⟨token, hkind, hvalue, heq⟩ :=
        ofText_item hitem hbefore (.inr ⟨_, rfl, hletter⟩) start
      rw [hsplit, heq, ofText_cons_of_isBlank (by decide), List.map_cons,
        ih hothers (by decide), hkind, hvalue]
      rfl

/-- The outline of written items has one declaration for each item, in order, with the text of the
item and its kind. -/
theorem map_all_joined {items : List Item} (h : ∀ item ∈ items, item.IsWritten) :
    (all (joined items)).map (fun token => (Report.kindName token.kind, token.value)) =
      items.map fun item => (item.kindName, item.text) :=
  map_ofText_joined h rfl 0

/-- Items of all kinds. Two definitions have the same name, one of them below an annotation, and the
words of the grammar stand in places where they mean nothing. -/
def sampleItems : List Item :=
  [.moduleStatement ⟨"Main", ["f", "T(..)"]⟩, .importStatement ⟨"List", some "L", []⟩,
    .typeAlias "P =\n    ( Int, Int )\n".toList, .customType "T = A | B".toList,
    .annotated "Int ->\n    Int".toList ⟨['f'], " x".toList, "\n    x == 1 -- : f =".toList⟩,
    .function ⟨['f'], [], "2".toList⟩,
    .function ⟨"types".toList, " module".toList, " import x".toList⟩]

/-- The sample items are found one by one, each with its kind and its text. -/
theorem map_all_joined_sampleItems :
    (∀ item ∈ sampleItems, item.IsWritten) ∧
      (all (joined sampleItems)).map (fun token => (Report.kindName token.kind, token.value)) =
        sampleItems.map fun item => (item.kindName, item.text) := by
  have hmodule : (ModuleStatement.parse "module Main exposing (f, T(..))".toList 6).1 =
      ⟨"Main", ["f", "T(..)"]⟩ := by decide +kernel
  have himport : (ImportStatement.parse "import List as L".toList 6).1 =
      ⟨"List", some "L", []⟩ := by decide +kernel
  have hname : IsFunctionName ['f'] := ⟨⟨'f', [], rfl, by decide, by decide, by simp⟩, by decide⟩
  have hnames : IsFunctionName "types".toList :=
    ⟨⟨'t', "ypes".toList, rfl, by decide, by decide, List.all_eq_true.mp (by decide)⟩, by decide⟩
  have hitems : ∀ item ∈ sampleItems, item.IsWritten := by
    simp only [sampleItems, List.forall_mem_cons]
    refine ⟨⟨_, _, hmodule⟩, ⟨_, _, himport⟩, ?_, ⟨⟨'T', rfl, by decide, by decide⟩, ?_⟩, ⟨?_, ?_⟩,
      ?_, ?_, by simp⟩
    · unfold Item.IsWritten
      decide
    · decide
    · decide
    · exact ⟨hname, by simp, by decide, by decide, by decide, by decide, by decide⟩
    · exact ⟨hname, by simp, by decide, by decide, by decide, by decide, by decide⟩
    · exact ⟨hnames, by simp, by decide, by decide, by decide, by decide, by decide⟩
  exact ⟨hitems, map_all_joined hitems⟩

end Declaration

end ElmReach
