import ElmReach.Proofs.CanonicalStatement
import ElmReach.Proofs.TokenRun
import ElmReach.Proofs.TracedOutcome
import ElmReach.SourceModule
import Mathlib.Tactic.Common

/-!
# Listings

A listing holds the canonical text of a module statement and of some imports, one a line. Each line
is one token, because no line break stands inside of a canonical text and the next line starts with
a letter. So a listing reads back as the statements that were written.
-/

namespace ElmReach

open Text Statement

/-- The canonical texts of the statements, one a line, the module statement first. -/
def listing (statement : ModuleStatement) (imports : List ImportStatement) : List Char :=
  ['\n'].intercalate
    (statement.render.toList :: imports.map fun imported => imported.render.toList)

namespace Statement

/-- A statement ends in front of this text: nothing is left, or a line break with a letter behind
it. -/
def EndsStatement (rest : List Char) : Prop :=
  rest = [] ∨ ∃ next, rest = '\n' :: next ∧ startsWithLetter next = true

/-- A text without line breaks belongs to the statement as a whole. -/
theorem span_append {text rest : List Char} (htext : '\n' ∉ text) (hrest : EndsStatement rest) :
    span (text ++ rest) = text := by
  induction text with
  | nil =>
    rcases hrest with rfl | ⟨next, rfl, hletter⟩
    · rfl
    · rw [List.nil_append, span, if_pos ⟨rfl, hletter⟩]
  | cons c text ih =>
    simp only [List.mem_cons, not_or] at htext
    rw [List.cons_append, span, if_neg fun hboth => htext.1 hboth.1.symm, ih htext.2]

/-- A keyword with a tidy text behind it starts a statement that ends with the text. -/
theorem startsWithKeyword_line {keyword body rest : List Char} {before : Option Char}
    (hlength : keyword.length = 6) (hbefore : before.any isWordChar = false) (hbody : Tidy body)
    (hrest : EndsStatement rest) :
    startsWithKeyword keyword before (keyword ++ ' ' :: body ++ rest) = true ∧
      span ((keyword ++ ' ' :: body ++ rest).drop 6) = ' ' :: body := by
  have htext : keyword ++ ' ' :: body ++ rest = keyword ++ (' ' :: body ++ rest) :=
    List.append_assoc _ _ _
  refine ⟨startsWithKeyword_iff.mpr ⟨hbefore, ' ', body ++ rest, htext, by decide⟩, ?_⟩
  rw [htext, ← hlength, List.drop_left]
  refine span_append (fun hbreak => ?_) hrest
  rcases List.mem_cons.mp hbreak with hbreak | hbreak
  · exact absurd hbreak (by decide)
  · exact absurd (hbody.spaces '\n' hbreak (by decide)) (by decide)

end Statement

namespace Token

/-- The kinds of the tokens of a text are that of the piece which is recognised at its front and
those of what follows the piece. -/
theorem map_kind_ofText {before : Option Char} {piece rest : List Char} {kind : TokenKind}
    (h : recognise? before (piece ++ rest) = some (kind, piece.length)) (start : Nat) :
    ∃ last stop, (ofText before start (piece ++ rest)).map Token.kind =
      kind :: (ofText last stop rest).map Token.kind := by
  obtain ⟨c, others, htext⟩ : ∃ c others, piece ++ rest = c :: others := by
    apply List.exists_cons_of_ne_nil
    have hpos := recognise?_length_pos h
    exact List.append_ne_nil_of_left_ne_nil (List.ne_nil_of_length_pos hpos) rest
  have hbehind : behind before (piece ++ rest) = rest := by
    rw [behind_of_recognise?_some h, List.drop_left]
  have hkind : (next before start (piece ++ rest)).kind = kind := by
    rw [next, h]
    rfl
  rw [htext] at hbehind hkind ⊢
  exact ⟨_, _, by rw [ofText_cons, List.map_cons, hbehind, hkind]⟩

/-- A line break is a marker, whatever stands in front of it. -/
theorem map_kind_ofText_break (before : Option Char) (start : Nat) (rest : List Char) :
    (ofText before start ('\n' :: rest)).map Token.kind =
      .marker :: (ofText (some '\n') (start + 1) rest).map Token.kind := by
  have hrec : recognise? before ('\n' :: rest) = none := rfl
  rw [ofText_cons, behind_of_recognise?_none hrec, List.map_cons, next, hrec]
  rfl

/-- The rendering of a module statement is found as this statement again, and it is read as a
whole. -/
theorem recognise?_module_render {statement : ModuleStatement} (h : statement.Canonical)
    {rest : List Char} (hrest : EndsStatement rest) :
    recognise? none (statement.render.toList ++ rest) =
      some (.moduleStatement statement, statement.render.toList.length) := by
  obtain ⟨hkeyword, hspan⟩ := startsWithKeyword_line (rfl : moduleKeyword.length = 6)
    (rfl : none.any isWordChar = false) h.tidy_body hrest
  rw [ModuleStatement.toList_render, recognise?_of_moduleKeyword hkeyword, hspan, h.ofSpan_body,
    List.length_append]
  rfl

/-- The rendering of an import statement at the start of a line is found as this statement again,
and it is read as a whole. -/
theorem recognise?_import_render {statement : ImportStatement} (h : statement.Canonical)
    {rest : List Char} (hrest : EndsStatement rest) :
    recognise? (some '\n') (statement.render.toList ++ rest) =
      some (.importStatement statement, statement.render.toList.length) := by
  obtain ⟨hkeyword, hspan⟩ := startsWithKeyword_line (rfl : importKeyword.length = 6)
    (by decide : (some '\n').any isWordChar = false) h.tidy_body hrest
  rw [ImportStatement.toList_render, recognise?_of_importKeyword hkeyword, hspan, h.ofSpan_body,
    List.length_append]
  rfl

end Token

/-- The imports of a listing, each one behind a line break. -/
def importLines (imports : List ImportStatement) : List Char :=
  imports.flatMap fun imported => '\n' :: imported.render.toList

/-- A listing is the module statement's line, with a line for each import behind it. -/
theorem listing_eq (statement : ModuleStatement) (imports : List ImportStatement) :
    listing statement imports = statement.render.toList ++ importLines imports := by
  have hlines (front : List Char) :
      ['\n'].intercalate (front :: imports.map fun imported => imported.render.toList) =
        front ++ importLines imports := by
    induction imports generalizing front with
    | nil => simp [importLines]
    | cons imported imports ih =>
      rw [List.map_cons, List.intercalate_cons_cons, ih]
      simp [importLines]
  exact hlines _

/-- The lines of the imports start with a line break and a letter, or there are none, and so they
end the statement in front of them. -/
theorem endsStatement_importLines (imports : List ImportStatement) :
    EndsStatement (importLines imports) := by
  cases imports with
  | nil => exact .inl rfl
  | cons imported imports =>
    refine .inr ⟨imported.render.toList ++ importLines imports, rfl, ?_⟩
    rw [ImportStatement.toList_render]
    rfl

/-- The tokens of the imports are markers for the line breaks and the imports themselves. -/
theorem Token.map_kind_ofText_importLines {imports : List ImportStatement}
    (h : ∀ imported ∈ imports, imported.Canonical) (before : Option Char) (start : Nat) :
    (ofText before start (importLines imports)).map Token.kind =
      imports.flatMap fun imported => [.marker, .importStatement imported] := by
  induction imports generalizing before start with
  | nil => simp [importLines, ofText]
  | cons imported imports ih =>
    have hlines : importLines (imported :: imports) =
        '\n' :: (imported.render.toList ++ importLines imports) := rfl
    have hrec := recognise?_import_render (h imported List.mem_cons_self)
      (endsStatement_importLines imports)
    obtain ⟨last, stop, hkinds⟩ := map_kind_ofText hrec (start + 1)
    rw [hlines, map_kind_ofText_break, hkinds,
      ih fun other hother => h other (List.mem_cons_of_mem imported hother)]
    rfl

/-- The tokens of a listing are its statements, with a marker for each line break between them. -/
theorem Token.map_kind_all_listing {statement : ModuleStatement} {imports : List ImportStatement}
    (hstatement : statement.Canonical) (himports : ∀ imported ∈ imports, imported.Canonical) :
    (Token.all (listing statement imports)).map Token.kind = .moduleStatement statement ::
      imports.flatMap fun imported => [.marker, .importStatement imported] := by
  have hrec := recognise?_module_render hstatement (endsStatement_importLines imports)
  obtain ⟨last, stop, hkinds⟩ := map_kind_ofText hrec 0
  rw [all, listing_eq, hkinds, map_kind_ofText_importLines himports]

namespace Summary

/-- What is collected from such tokens are the statements, in order. -/
theorem ofTokens_of_map_kind {tokens : List Token} {statement : ModuleStatement}
    {imports : List ImportStatement}
    (h : tokens.map Token.kind = .moduleStatement statement ::
      imports.flatMap fun imported => [.marker, .importStatement imported]) :
    (ofTokens tokens).moduleStatements = [statement] ∧ (ofTokens tokens).imports = imports ∧
      (ofTokens tokens).comments = [] := by
  refine ⟨?_, ?_, ?_⟩
  · have hkind : Token.moduleStatement? =
        (fun kind => Token.moduleStatement? ⟨kind, 0, 0, []⟩) ∘ Token.kind := rfl
    simp only [ofTokens]
    rw [hkind, ← List.filterMap_map, h]
    simp [Token.moduleStatement?, List.filterMap_flatMap]
  · have hkind : Token.importStatement? =
        (fun kind => Token.importStatement? ⟨kind, 0, 0, []⟩) ∘ Token.kind := rfl
    simp only [ofTokens]
    rw [hkind, ← List.filterMap_map, h]
    simp [Token.importStatement?, List.filterMap_flatMap]
  · simp only [ofTokens, List.filterMap_eq_nil_iff]
    intro token htoken
    have hkind := List.mem_map_of_mem (f := Token.kind) htoken
    rw [h] at hkind
    simp only [List.mem_cons, List.mem_flatMap, List.not_mem_nil, or_false] at hkind
    rcases hkind with hkind | ⟨imported, -, hkind | hkind⟩ <;> simp [Token.comment?, hkind]

end Summary

/-- A listing has no blank at its ends, so nothing is trimmed off. -/
theorem trimmed_listing {statement : ModuleStatement} {imports : List ImportStatement}
    (hstatement : statement.Canonical) (himports : ∀ imported ∈ imports, imported.Canonical) :
    Trimmed (listing statement imports) := by
  have hlines : ∀ c ∈ (importLines imports).getLast?, isBlank c = false := by
    induction imports with
    | nil => simp [importLines]
    | cons imported imports ih =>
      have hrest := ih fun other hother => himports other (List.mem_cons_of_mem imported hother)
      have hline := (himports imported List.mem_cons_self).getLast?_render ['\n']
      exact getLast?_append_not_isBlank hline hrest
  rw [listing_eq]
  refine ⟨?_, getLast?_append_not_isBlank hstatement.getLast?_render hlines⟩
  rw [ModuleStatement.toList_render]
  rintro c ⟨rfl⟩
  decide

/-- What a listing of canonical statements holds: the module statement and the imports that it was
made of, and no comment. -/
theorem Summary.ofContent_listing {statement : ModuleStatement} {imports : List ImportStatement}
    (hstatement : statement.Canonical) (himports : ∀ imported ∈ imports, imported.Canonical) :
    (ofContent (listing statement imports)).moduleStatement = some statement ∧
      (ofContent (listing statement imports)).imports = imports ∧
      (ofContent (listing statement imports)).comments = [] := by
  obtain ⟨hmodules, hothers⟩ :=
    ofTokens_of_map_kind (Token.map_kind_all_listing hstatement himports)
  exact ⟨by rw [moduleStatement, ofContent, hmodules]; rfl, hothers⟩

/-- A module statement with a name names the module. -/
theorem SourceModule.hasOutcome_ofSummary {summary : Summary} {statement : ModuleStatement}
    (hstatement : summary.moduleStatement = some statement) (hname : statement.name ≠ "")
    (path : String) (sourceRoot : Option String) :
    (ofSummary path sourceRoot summary).HasOutcome
      (.ok { path, name := statement.name, imports := summary.imports.filter (·.name ≠ "") }) := by
  have hdeclared : (summary.moduleStatement.map ModuleStatement.name).filter (· ≠ "") =
      some statement.name := by
    simp [hstatement, Option.filter, hname]
  unfold ofSummary
  simp only [hdeclared]
  exact Traced.hasOutcome_pure _

/-- A listing of canonical statements reads back as a module with these statements. -/
theorem SourceModule.hasOutcome_ofContent_listing {statement : ModuleStatement}
    {imports : List ImportStatement} (hstatement : statement.Canonical)
    (himports : ∀ imported ∈ imports, imported.Canonical) (path : String)
    (sourceRoot : Option String) :
    (ofContent path (listing statement imports) sourceRoot).HasOutcome
      (.ok { path, name := statement.name, imports }) := by
  obtain ⟨hmodule, hlisted, -⟩ := Summary.ofContent_listing hstatement himports
  have hnamed : imports.filter (·.name ≠ "") = imports := by
    refine List.filter_eq_self.mpr fun imported himported => ?_
    simpa using (himports imported himported).name.ne_nil
  have hname : statement.name ≠ "" := by simpa using hstatement.name.ne_nil
  have hsource := hasOutcome_ofSummary hmodule hname path sourceRoot
  rw [hlisted, hnamed] at hsource
  unfold ofContent
  rw [(trimmed_listing hstatement himports).trim_eq]
  exact (SourceText.hasOutcome_summary _).after hsource

/-- Statements that were read once, with a name and with balanced entries, are read again from the
listing of their canonical texts. -/
theorem SourceModule.ofContent_listing_of_parse {statement : ModuleStatement}
    {imports : List ImportStatement}
    (hstatement : ∃ content offset, (ModuleStatement.parse content offset).1 = statement)
    (hname : statement.name ≠ "")
    (hbalanced : ∀ entry ∈ statement.exposing, Exposing.Balanced entry)
    (himports : ∀ imported ∈ imports,
      (∃ content offset, (ImportStatement.parse content offset).1 = imported) ∧
        imported.name ≠ "" ∧ ∀ entry ∈ imported.exposing, Exposing.Balanced entry)
    (path : String) (sourceRoot : Option String) (past : List LogRecord) :
    (ofContent path (listing statement imports) sourceRoot past).outcome =
        .ok { path, name := statement.name, imports } ∧
      (Summary.ofContent (listing statement imports)).moduleStatement = some statement ∧
      (Summary.ofContent (listing statement imports)).comments = [] := by
  obtain ⟨content, offset, rfl⟩ := hstatement
  have hcanonical := ModuleStatement.canonical_ofSpan hname hbalanced
  have hcanonicals (imported : ImportStatement) (himported : imported ∈ imports) :
      imported.Canonical := by
    obtain ⟨⟨content, offset, rfl⟩, hname, hbalanced⟩ := himports imported himported
    exact ImportStatement.canonical_ofSpan hname hbalanced
  obtain ⟨hmodule, -, hcomments⟩ := Summary.ofContent_listing hcanonical hcanonicals
  have houtcome := hasOutcome_ofContent_listing hcanonical hcanonicals path sourceRoot past
  exact ⟨houtcome, hmodule, hcomments⟩

/-- Names and entries may hold the words of the grammar, and an import may stand twice. -/
theorem SourceModule.ofContent_listing_of_keywords :
    (ofContent "Main.elm" (listing ⟨"exposing", ["Msg(..)", "(a, b)"]⟩
        [⟨"as", some "exposing", ["exposing (x)"]⟩, ⟨"as", some "exposing", ["exposing (x)"]⟩])
        none []).outcome =
      .ok ⟨"Main.elm", "exposing", [⟨"as", some "exposing", ["exposing (x)"]⟩,
        ⟨"as", some "exposing", ["exposing (x)"]⟩]⟩ := by
  have hmodule : (ModuleStatement.parse
      "module exposing\n exposing (Msg(..)\x7b- , -\x7d,(a,\n b))".toList 6).1 =
        ⟨"exposing", ["Msg(..)", "(a, b)"]⟩ := by decide +kernel
  have himport : (ImportStatement.parse
      "import as as exposing exposing (exposing (x)) -- , y".toList 6).1 =
        ⟨"as", some "exposing", ["exposing (x)"]⟩ := by decide +kernel
  refine (ofContent_listing_of_parse ⟨_, _, hmodule⟩ (by decide) (by decide) ?_ _ none []).1
  intro imported himported
  obtain rfl : imported = ⟨"as", some "exposing", ["exposing (x)"]⟩ := by simpa using himported
  exact ⟨⟨_, _, himport⟩, by decide, by decide⟩

end ElmReach
