import ElmReach.Proofs.ExposingList
import ElmReach.Source.Statement
import Mathlib.Tactic.Common

/-!
# Statements and their canonical texts

What can be read as a statement with a name is canonical: its name follows the grammar of names, and
so does the word given with `as`; its balanced entries can be written in a list. The canonical text
of such a statement is tidy, and it reads back as the same statement.
-/

namespace ElmReach

open Text Statement

/-- A text that can follow a name: it starts with a blank, if with anything, and does not end with
one. -/
structure FollowsName (rest : List Char) : Prop where
  blankFirst : BlankFirst rest
  tidy : Tidy rest
  last : ∀ c ∈ rest.getLast?, isBlank c = false

/-- Such a text leaves the whole tidy if a dotted name stands in front of it. -/
theorem FollowsName.tidy_append {name rest : List Char} (hname : Name.IsDotted name)
    (hrest : FollowsName rest) : Tidy (name ++ rest) := by
  have hapart := Comment.isChain_of_isDotted hname
  refine (tidy_of_not_isBlank hname.not_isBlank hapart).append hrest.tidy ?_
  intro a ha b hb
  have hblank := hrest.blankFirst b hb
  have hdash : b ≠ '-' := by
    rintro rfl
    exact absurd hblank (by decide)
  exact fits_of_not_isBlank (hname.not_isBlank a (List.mem_of_mem_getLast? ha)) hdash

/-- Such a text leaves the whole trimmed if a dotted name stands in front of it: the name starts
with no blank, and the text does not end with one. -/
theorem FollowsName.trimmed_append {name rest : List Char} (hname : Name.IsDotted name)
    (hrest : FollowsName rest) : Trimmed (name ++ rest) := by
  have hlast : ∀ c ∈ name.getLast?, isBlank c = false :=
    fun c hc => hname.not_isBlank c (List.mem_of_mem_getLast? hc)
  refine ⟨fun c hc => ?_, getLast?_append_not_isBlank hlast hrest.last⟩
  rw [List.head?_append_of_ne_nil _ hname.ne_nil] at hc
  exact hname.not_isBlank c (List.mem_of_mem_head? hc)

/-- The text of a statement does not end with a blank. -/
theorem FollowsName.getLast?_append {name rest : List Char} (hname : Name.IsDotted name)
    (hrest : FollowsName rest) (keyword : List Char) :
    ∀ c ∈ (keyword ++ ' ' :: (name ++ rest)).getLast?, isBlank c = false := by
  have hne : name ++ rest ≠ [] := List.append_ne_nil_of_left_ne_nil hname.ne_nil rest
  rw [List.append_cons, List.getLast?_append_of_ne_nil _ hne]
  exact (hrest.trimmed_append hname).last

/-- A written list can follow a name, since it starts with a space or is empty. So the name in front
of it is read as a whole. -/
theorem followsName_render {written : List String}
    (hwritten : ∀ entry ∈ written, Exposing.IsEntry entry.toList) :
    FollowsName (Exposing.render written) :=
  ⟨Exposing.blankFirst_render written, Exposing.tidy_render hwritten,
    Exposing.getLast?_render written⟩

/-- An `as` clause can follow a name, and what follows a name can follow the clause. -/
theorem FollowsName.renderAs {asName : Option String} {rest : List Char}
    (hword : ∀ word ∈ asName, Name.IsWord word.toList) (hrest : FollowsName rest) :
    FollowsName (ImportStatement.renderAs asName ++ rest) := by
  cases asName with
  | none => exact hrest
  | some word =>
    have hname : Name.IsDotted word.toList := .word (hword word rfl)
    have htrimmed := hrest.trimmed_append hname
    have htidy : Tidy ([' ', 'a', 's', ' '] ++ (word.toList ++ rest)) := by
      refine Tidy.append (by decide) (hrest.tidy_append hname) ?_
      rintro a ⟨rfl⟩ b hb
      exact fits_space (htrimmed.head b hb)
    exact ⟨blankFirst_cons.mpr (by decide), htidy, hrest.getLast?_append hname [' ', 'a', 's']⟩

namespace Statement

/-- Behind a name, the plain text of a statement is what was written there. -/
theorem plain_name_append {name rest : List Char} (hname : Name.IsDotted name)
    (hrest : FollowsName rest) : plain (' ' :: (name ++ rest)) = name ++ rest :=
  plain_cons_of_tidy (hrest.tidy_append hname) (hrest.trimmed_append hname)

/-- From a text that starts with a dotted name and ends or goes on with a blank, the name is read as
a whole. -/
theorem take_name_append {name rest : List Char} (hname : Name.IsDotted name)
    (hrest : BlankFirst rest) :
    (name ++ rest).take (Name.dottedLength (name ++ rest)) = name := by
  rw [← Name.dotted, Name.dotted_append hrest, hname.dotted_eq]

/-- What stands behind the word of an alias is the rest of the text. -/
theorem isWord_of_asClause? {text word rest : List Char} (h : asClause? text = some (word, rest)) :
    Name.IsWord word ∧ rest <:+ text := by
  unfold asClause? at h
  split at h
  · next others =>
    dsimp only at h
    split at h
    · cases h
    · next hlength =>
      obtain ⟨rfl, rfl⟩ := Prod.mk.inj (Option.some.inj h)
      refine ⟨Name.isWord_take_wordLength hlength, (List.drop_suffix _ _).trans ?_⟩
      exact List.suffix_append [' ', 'a', 's', ' '] others
  · cases h

/-- The text of an exposing list has no alias: it is empty or starts with the word for exposing. -/
theorem asClause?_render (written : List String) : asClause? (Exposing.render written) = none := by
  by_cases hne : written = []
  · rw [hne]
    rfl
  · rw [Exposing.render_of_ne_nil hne]
    rfl

/-- A written `as` clause is read back. The name behind the word ends where the list starts. -/
theorem asClause?_renderAs {word : String} {rest : List Char} (hword : Name.IsWord word.toList)
    (hrest : BlankFirst rest) :
    asClause? (ImportStatement.renderAs (some word) ++ rest) = some (word.toList, rest) := by
  have hlength := Name.wordLength_append hword hrest
  have hne : word.toList.length ≠ 0 := by
    obtain ⟨first, others, heq, -, -⟩ := hword
    simp [heq]
  simp only [ImportStatement.renderAs, List.cons_append, asClause?, hlength, if_neg hne,
    List.take_left, List.drop_left]

end Statement

namespace ModuleStatement

/-- The statement has a name, and its entries can be written in a list. These are the statements
that parsing gives and that rendering keeps. -/
structure Canonical (statement : ModuleStatement) : Prop where
  name : Name.IsDotted statement.name.toList
  exposing : ∀ entry ∈ statement.exposing, Exposing.IsEntry entry.toList

/-- The canonical text behind the keyword and a space. -/
def body (statement : ModuleStatement) : List Char :=
  statement.name.toList ++ Exposing.render statement.exposing

/-- The text of a module statement is its keyword, a space and its body. -/
theorem toList_render (statement : ModuleStatement) :
    statement.render.toList = moduleKeyword ++ ' ' :: statement.body := by
  simp [render, body]

/-- What is read with a name and with balanced entries is canonical. -/
theorem canonical_ofSpan {span : List Char} (hname : (ofSpan span).name ≠ "")
    (hbalanced : ∀ entry ∈ (ofSpan span).exposing, Exposing.Balanced entry) :
    (ofSpan span).Canonical := by
  refine ⟨Name.isDotted_of_toList_eq (toList_name_ofSpan span) hname, fun entry hentry => ?_⟩
  exact Exposing.isEntry_of_mem_entries (tidy_plain span) hentry (hbalanced entry hentry)

/-- The body of a canonical module statement is tidy, so that collapsing its blanks changes
nothing. -/
theorem Canonical.tidy_body {statement : ModuleStatement} (h : statement.Canonical) :
    Tidy statement.body :=
  (followsName_render h.exposing).tidy_append h.name

/-- The text of a canonical module statement does not end with a blank, so trimming it changes
nothing. -/
theorem Canonical.getLast?_render {statement : ModuleStatement} (h : statement.Canonical) :
    ∀ c ∈ statement.render.toList.getLast?, isBlank c = false := by
  rw [toList_render]
  exact (followsName_render h.exposing).getLast?_append h.name moduleKeyword

/-- A canonical statement is read back from its text. -/
theorem Canonical.ofSpan_body {statement : ModuleStatement} (h : statement.Canonical) :
    ofSpan (' ' :: statement.body) = statement := by
  have hrest := followsName_render h.exposing
  have hentries := Exposing.entries_append_render h.name.isWordChar_or_dot h.exposing
  rw [ofSpan, body, plain_name_append h.name hrest]
  simp only [take_name_append h.name hrest.blankFirst, hentries, String.ofList_toList]

end ModuleStatement

namespace ImportStatement

/-- The statement has a name, the word given with `as` is a word, and the entries can be written in
a list. -/
structure Canonical (statement : ImportStatement) : Prop where
  name : Name.IsDotted statement.name.toList
  asName : ∀ word ∈ statement.asName, Name.IsWord word.toList
  exposing : ∀ entry ∈ statement.exposing, Exposing.IsEntry entry.toList

/-- The canonical text behind the keyword and a space. -/
def body (statement : ImportStatement) : List Char :=
  statement.name.toList ++ (renderAs statement.asName ++ Exposing.render statement.exposing)

/-- The text of an import statement is its keyword, a space and its body. -/
theorem toList_render (statement : ImportStatement) :
    statement.render.toList = importKeyword ++ ' ' :: statement.body := by
  simp [render, body]

/-- The entries of an import are read at the end of its plain text, behind an `as` clause if there
is one. -/
theorem exists_suffix_of_ofSpan (span : List Char) :
    (∀ word ∈ (ofSpan span).asName, Name.IsWord word.toList) ∧
      ∃ rest, rest <:+ plain span ∧ (ofSpan span).exposing = Exposing.entries rest := by
  unfold ofSpan
  dsimp only
  split
  · exact ⟨by simp, [], List.nil_suffix, rfl⟩
  · split
    · exact ⟨by simp, _, List.drop_suffix _ _, rfl⟩
    · next word rest hclause =>
      obtain ⟨hword, hsuffix⟩ := isWord_of_asClause? hclause
      refine ⟨?_, rest, hsuffix.trans (List.drop_suffix _ _), rfl⟩
      rintro _ ⟨rfl⟩
      rwa [String.toList_ofList]

/-- What is read with a name and with balanced entries is canonical. -/
theorem canonical_ofSpan {span : List Char} (hname : (ofSpan span).name ≠ "")
    (hbalanced : ∀ entry ∈ (ofSpan span).exposing, Exposing.Balanced entry) :
    (ofSpan span).Canonical := by
  have hdotted := Name.isDotted_of_toList_eq (toList_name_ofSpan span) hname
  obtain ⟨hasName, rest, hrest, hentries⟩ := exists_suffix_of_ofSpan span
  refine ⟨hdotted, hasName, fun entry hentry => ?_⟩
  have htidy := (tidy_plain span).of_isInfix hrest.isInfix
  exact Exposing.isEntry_of_mem_entries htidy (hentries ▸ hentry) (hbalanced entry hentry)

/-- Behind the name of an import stand its clauses in a form that cannot be taken for a part of the
name. -/
theorem Canonical.followsName_clauses {statement : ImportStatement} (h : statement.Canonical) :
    FollowsName (renderAs statement.asName ++ Exposing.render statement.exposing) :=
  (followsName_render h.exposing).renderAs h.asName

/-- The body of a canonical import statement is tidy, so that collapsing its blanks changes
nothing. -/
theorem Canonical.tidy_body {statement : ImportStatement} (h : statement.Canonical) :
    Tidy statement.body :=
  h.followsName_clauses.tidy_append h.name

/-- The text of a canonical import statement does not end with a blank, whatever stands in front of
it. -/
theorem Canonical.getLast?_render {statement : ImportStatement} (h : statement.Canonical)
    (front : List Char) : ∀ c ∈ (front ++ statement.render.toList).getLast?, isBlank c = false := by
  rw [toList_render, ← List.append_assoc]
  exact h.followsName_clauses.getLast?_append h.name (front ++ importKeyword)

/-- An import is read from its plain text: the name, the `as` clause and a text with the list. -/
theorem ofSpan_of_plain_eq {statement : ImportStatement} {span list : List Char}
    (hname : Name.IsDotted statement.name.toList)
    (hasName : ∀ word ∈ statement.asName, Name.IsWord word.toList)
    (hplain : plain span = statement.name.toList ++ (renderAs statement.asName ++ list))
    (hlist : BlankFirst list) (hclause : asClause? list = none)
    (hentries : Exposing.entries list = statement.exposing) : ofSpan span = statement := by
  obtain ⟨name, asName, exposing⟩ := statement
  dsimp only at hname hasName hplain hentries
  have hrest : BlankFirst (renderAs asName ++ list) := by
    cases asName with
    | none => exact hlist
    | some word => exact blankFirst_cons.mpr (by decide)
  have htake := take_name_append hname hrest
  have hlength : Name.dottedLength (plain span) ≠ 0 := by
    intro hzero
    rw [← hplain, hzero, List.take_zero] at htake
    exact hname.ne_nil htake.symm
  have hdrop := Name.drop_dottedLength hname hrest
  rw [← hplain] at htake hdrop
  rw [ofSpan]
  dsimp only
  rw [if_neg hlength, htake, hdrop]
  cases asName with
  | none => simp [renderAs, hclause, hentries]
  | some word => simp [asClause?_renderAs (hasName word rfl) hlist, hentries]

/-- A canonical statement is read back from its text. -/
theorem Canonical.ofSpan_body {statement : ImportStatement} (h : statement.Canonical) :
    ofSpan (' ' :: statement.body) = statement := by
  -- The list stands behind a name or a word, which have been read before it is looked for.
  have hentries : Exposing.entries (Exposing.render statement.exposing) = statement.exposing :=
    Exposing.entries_append_render (fun _ hc => absurd hc List.not_mem_nil) h.exposing
  exact ofSpan_of_plain_eq h.name h.asName (plain_name_append h.name h.followsName_clauses)
    (Exposing.blankFirst_render _) (asClause?_render _) hentries

end ImportStatement

end ElmReach
