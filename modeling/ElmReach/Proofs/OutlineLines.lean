import ElmReach.CommandLine.Run
import ElmReach.Proofs.Concatenation
import ElmReach.Proofs.LinkFree
import ElmReach.Proofs.OutlineCover
import ElmReach.Proofs.TracedOutcome

/-!
# The lines of an outline

The blanks at both ends of a file are trimmed off before its declarations are looked for, and lines
are counted in what is left. So the line that the outline prints for a declaration is its line in
the file less the line breaks among the blanks in front of the file's first declaration.
-/

namespace ElmReach

namespace Text

/-- The blanks at the front of a text. They are trimmed away when the text is read from a file. -/
def leadingBlanks (text : List Char) : List Char :=
  text.takeWhile isBlank

/-- The line of a text in which the character at an offset stands, from one on. It is the number of
line breaks in front of the offset, and one. -/
def lineAt (text : List Char) (offset : Nat) : Nat :=
  (text.take offset).count '\n' + 1

variable {text : List Char}

/-- The line of an offset counts the line breaks in front of it, so that those of a text in front
are added. -/
theorem lineAt_append (front text : List Char) (offset : Nat) :
    lineAt (front ++ text) (offset + front.length) = front.count '\n' + lineAt text offset := by
  rw [lineAt, lineAt, Nat.add_comm offset, List.take_length_add_append, List.count_append,
    Nat.add_assoc]

/-- The line of an offset in a text does not depend on what is behind the text. -/
theorem lineAt_append_left {offset : Nat} (h : offset ≤ text.length) (back : List Char) :
    lineAt (text ++ back) offset = lineAt text offset := by
  rw [lineAt, lineAt, List.take_append_of_le_length h]

/-- A text that is not blank is made of leading blanks, of what trimming leaves, and of blanks at
its end. -/
theorem trimEnd_eq_append_trim (h : trim text ≠ []) :
    trimEnd text = leadingBlanks text ++ trim text := by
  have hsplit : leadingBlanks text ++ text.dropWhile isBlank = text :=
    List.takeWhile_append_dropWhile
  calc
    trimEnd text = trimEnd (leadingBlanks text ++ text.dropWhile isBlank) := by rw [hsplit]
    _ = leadingBlanks text ++ trim text := trimEnd_append_of_ne_nil h _

end Text

open Text

namespace Declaration

/-- A token does not depend on where its text starts, apart from its offsets. -/
theorem next_shift (before : Option Char) (start distance : Nat) (text : List Char) :
    next before (start + distance) text = (next before start text).shift distance := by
  simp only [next, Token.covering, Token.shift, Nat.add_right_comm]

/-- Moving a text moves its declarations, as no declaration depends on where its text starts. -/
theorem ofText_shift (before : Option Char) (start distance : Nat) (text : List Char) :
    ofText before (start + distance) text =
      (ofText before start text).map (Token.shift distance) := by
  fun_induction ofText before start text with
  | case1 before start => rw [ofText_nil, List.map_nil]
  | case2 before start c rest hblank ih =>
    rw [ofText_cons_of_isBlank hblank, Nat.add_right_comm, ih]
  | case3 before start c rest hblank token ih =>
    have hc : isBlank c = false := by simpa using hblank
    have hsplit : token.text ++ (c :: rest).drop token.text.length = c :: rest := by
      obtain ⟨-, -, -, others, hothers⟩ := next_spec before start (c :: rest)
      rw [← hothers, List.drop_left]
    have htext : (next before (start + distance) (c :: rest)).text = token.text := by
      rw [next_shift]
      rfl
    rw [ofText_cons_of_not_isBlank hc htext hsplit, next_shift, List.map_cons, ← ih]
    rfl

/-- Of the character in front of a text it matters only whether it belongs to a word. -/
theorem ofText_congr_before {before other : Option Char}
    (h : before.any isWordChar = other.any isWordChar) (start : Nat) (text : List Char) :
    ofText before start text = ofText other start text := by
  cases text with
  | nil => rw [ofText_nil, ofText_nil]
  | cons c rest =>
    by_cases hc : isBlank c = true
    · rw [ofText_cons_of_isBlank hc, ofText_cons_of_isBlank hc]
    · have hnext : next before start (c :: rest) = next other start (c :: rest) := by
        rw [next, next, Token.recognise?_congr_before h]
      obtain ⟨-, -, -, others, hsplit⟩ := next_spec other start (c :: rest)
      rw [Bool.not_eq_true] at hc
      rw [ofText_cons_of_not_isBlank hc (congrArg Token.text hnext) hsplit,
        ofText_cons_of_not_isBlank hc rfl hsplit, hnext]

/-- Blanks in front of a text are skipped: the outline of the rest is moved by their number. -/
theorem ofText_blanks_append {blanks : List Char} (h : ∀ c ∈ blanks, isBlank c = true)
    (start : Nat) (text : List Char) :
    ofText none start (blanks ++ text) = ofText none (start + blanks.length) text := by
  induction blanks generalizing start with
  | nil => rw [List.nil_append, List.length_nil, Nat.add_zero]
  | cons c blanks ih =>
    obtain ⟨hc, hblanks⟩ := List.forall_mem_cons.mp h
    have hbefore : (some c).any isWordChar = none.any isWordChar := by
      simp [isWordChar_of_isBlank hc]
    rw [List.cons_append, ofText_cons_of_isBlank hc, ofText_congr_before hbefore, ih hblanks,
      List.length_cons, Nat.add_assoc, Nat.add_comm 1]

/-- The declarations of a text without the blanks at its end are those of the trimmed text, behind
the blanks at its front. -/
theorem all_trimEnd (text : List Char) :
    all (trimEnd text) = (all (trim text)).map (Token.shift (leadingBlanks text).length) := by
  by_cases h : trim text = []
  · rw [trimEnd_eq_nil_of_trim h, h, all, ofText_nil, List.map_nil]
  · have hblanks : ∀ c ∈ leadingBlanks text, isBlank c = true := fun c hc =>
      List.mem_takeWhile_imp hc
    rw [trimEnd_eq_append_trim h, all, ofText_blanks_append hblanks, ofText_shift, all]

end Declaration

namespace Report

/-- What the outline says of a declaration: the line, the kind and the text that are printed for
it. -/
structure OutlineEntry where
  kind : String
  line : Nat
  summary : String
  deriving DecidableEq

/-- The entry in an outline as JSON: an object with these three fields. -/
def OutlineEntry.toJson (entry : OutlineEntry) : Json :=
  .object
    [("kind", .text entry.kind), ("line", .number entry.line), ("summary", .text entry.summary)]

/-- The entry in an outline for reading: a row of the table with these three columns. -/
def OutlineEntry.row (entry : OutlineEntry) : List String :=
  [toString entry.line, entry.kind, entry.summary]

/-- The outline that has these entries, as it is printed: as JSON, or as a table with a row for each
entry. -/
def outlineBlock (json : Bool) (title : String) (entries : List OutlineEntry) : Block :=
  if json then .plain (Json.list (entries.map OutlineEntry.toJson)).render
  else .table { outlineTable false title [] with rows := entries.map OutlineEntry.row }

/-- The entry for a declaration of a trimmed text. Its line is counted within this text. -/
def entryOf (content : List Char) (token : Token) : OutlineEntry where
  kind := kindName token.kind
  line := lineOf content token
  summary := summaryOf token

/-- The entry says what a declaration of a text is. Its line is the line on which the declaration
starts less the line breaks among the blanks at the front of the text. -/
structure OutlineEntry.Describes (entry : OutlineEntry) (text : List Char) (token : Token) :
    Prop where
  kind : entry.kind = kindName token.kind
  summary : entry.summary = summaryOf token
  stands : token.text <+: text.drop token.start
  first : ∃ c rest, token.text = c :: rest ∧ isBlank c = false
  line : entry.line + (leadingBlanks text).count '\n' = lineAt text token.start
  line_eq_iff : entry.line = lineAt text token.start ↔ '\n' ∉ leadingBlanks text

/-- Moving a token does not make it a comment, nor a comment anything else. -/
theorem isComment_shift (distance : Nat) (token : Token) :
    isComment (token.shift distance) = isComment token := by
  rw [isComment, Token.comment?_shift, Option.isSome_map, isComment]

/-- The outline of a file is that of its trimmed text, moved by the leading blanks. -/
theorem outlined_trimEnd (comments : Bool) (text : List Char) :
    outlined comments (trimEnd text) =
      (outlined comments (trim text)).map (Token.shift (leadingBlanks text).length) := by
  have hkeep : (fun token => comments || !isComment token) ∘
      Token.shift (leadingBlanks text).length = fun token => comments || !isComment token := by
    funext token
    rw [Function.comp_apply, isComment_shift]
  rw [outlined, Declaration.all_trimEnd, List.filter_map, hkeep, outlined]

/-- A declaration stands where its offsets say, and it does not start with a blank. -/
theorem stands_of_mem_all {content : List Char} {token : Token}
    (h : token ∈ Declaration.all content) :
    token.text <+: content.drop token.start ∧ token.start ≤ content.length ∧
      ∃ c rest, token.text = c :: rest ∧ isBlank c = false := by
  obtain ⟨tiles, htiles, hskips, heq⟩ := Declaration.exists_tiles_ofText none 0 content
  have houtlines := Declaration.outlines_filter htiles hskips
  rw [Declaration.all, heq] at h
  have hkind : token.kind ≠ .marker := by simpa using (List.mem_filter.mp h).2
  have hvalue : token.value = token.text := if_neg hkind
  have hslice := houtlines.value token h
  have hlt := houtlines.start_lt_stop token h
  have hle := houtlines.stop_le token h
  rw [hvalue] at hslice
  refine ⟨hslice ▸ List.take_prefix _ _, by omega, ?_⟩
  rw [← hvalue]
  exact houtlines.first token h

/-- An entry that is made from the trimmed text describes the token of the file, but for its line:
the line breaks among the leading blanks are not counted. -/
theorem describes_entryOf {text : List Char} {token : Token}
    (h : token ∈ Declaration.all (trim text)) :
    (entryOf (trim text) token).Describes text (token.shift (leadingBlanks text).length) := by
  obtain ⟨hstands, hle, hfirst⟩ := stands_of_mem_all h
  obtain ⟨back, hback, -⟩ := exists_append_trimEnd (text.dropWhile isBlank)
  have hsplit : text = leadingBlanks text ++ (trim text ++ back) := by
    rw [trim, ← hback]
    exact List.takeWhile_append_dropWhile.symm
  have hline : lineAt text (token.start + (leadingBlanks text).length) =
      (leadingBlanks text).count '\n' + lineOf (trim text) token :=
    calc
      _ = lineAt (leadingBlanks text ++ (trim text ++ back))
          (token.start + (leadingBlanks text).length) := congrArg (lineAt · _) hsplit
      _ = (leadingBlanks text).count '\n' + lineAt (trim text) token.start := by
        rw [lineAt_append, lineAt_append_left hle]
  refine ⟨rfl, rfl, ?_, hfirst, ?_, ?_⟩
  · have hdrop : text.drop (token.start + (leadingBlanks text).length) =
        (trim text).drop token.start ++ back :=
      calc
        _ = (leadingBlanks text ++ (trim text ++ back)).drop
            (token.start + (leadingBlanks text).length) := congrArg (List.drop _) hsplit
        _ = (trim text).drop token.start ++ back := by
          rw [Nat.add_comm token.start, List.drop_length_add_append,
            List.drop_append_of_le_length hle]
    refine List.IsPrefix.trans hstands ?_
    exact hdrop ▸ List.prefix_append _ _
  · exact (Nat.add_comm _ _).trans hline.symm
  · rw [Token.shift, hline, entryOf, ← List.count_eq_zero]
    dsimp only
    omega

end Report

namespace CommandLine

open Report

/-- The request can be answered: its format is known, and its path leads to a file of which this is
the text, decoded and with uniform line breaks. -/
structure OutlineRequest.Reads (request : OutlineRequest) (host : Host) (text : List Char) :
    Prop where
  isFormat : isFormat request.format = true
  notDirectory : isDirectory host request.file = false
  exists_bytes : ∃ bytes decoded,
    host.tree.file? host.here (Path.tidy request.file.render) = .ok (some bytes) ∧
      Encoding.utf8.decode bytes = .ok decoded ∧ Encoding.uniformLines decoded = text

variable {host : Host} {request : OutlineRequest} {text : List Char}

/-- The outline of a file that can be read is printed as a block of its entries, and the request
succeeds. -/
theorem runOutline_eq (h : request.Reads host text) :
    runOutline host request = .printing host 0
      [outlineBlock (request.format = "json") (Path.tidy request.file.render)
        ((outlined request.comments (trim text)).map (entryOf (trim text)))] := by
  obtain ⟨bytes, decoded, hfile, hdecode, rfl⟩ := h.exists_bytes
  have hsource := SourceText.ofFile_eq_ok hfile hdecode
  rw [runOutline, h.notDirectory, showOutline, h.isFormat, hsource]
  simp [outlineBlock, outlineJson, outlineTable, Function.comp_def, OutlineEntry.toJson,
    OutlineEntry.row, entryOf]

/-- The outline command prints an entry for each declaration of a file, in order, with the line on
which the declaration starts less the line breaks among the blanks at the front of the file. So the
lines are right if no line break is among these blanks. -/
theorem runOutline_lines (h : request.Reads host text) :
    ∃ entries,
      runOutline host request = .printing host 0
        [outlineBlock (request.format = "json") (Path.tidy request.file.render) entries] ∧
      List.Forall₂ (fun token entry => entry.Describes text token)
        (outlined request.comments (trimEnd text)) entries := by
  refine ⟨_, runOutline_eq h, ?_⟩
  rw [outlined_trimEnd, List.forall₂_map_left_iff, List.forall₂_map_right_iff, List.forall₂_same]
  exact fun token htoken => describes_entryOf (List.mem_filter.mp htoken).1

/-- A host with one source file. The text of the file is given. -/
def sourceHost (source : String) : Host where
  tree := ⟨[(["A.elm"], .file source.toUTF8.toList)]⟩
  here := []
  accountHome := "/"
  environment := []
  time := ""

/-- A request for the outline of this file as JSON, without comments. -/
def sourceRequest : OutlineRequest where
  file := .ofString "/A.elm"
  format := "json"
  comments := false

/-- The file of the sample host stands where the request says. -/
theorem isAt_sourceHost (source : String) :
    (sourceHost source).tree.IsAt ["A.elm"] (.file source.toUTF8.toList) where
  above := by
    intro above habove hne
    have hnil : above = [] := by simpa [hne] using habove
    rw [hnil]
    rfl
  entry := rfl
  linkFree := FileTree.linkFree_nil.concat fun target hlink => by cases hlink
  name_le := by decide
  text_le := by decide +kernel

/-- The path of the sample request is printed as it is written. -/
theorem title_sourceRequest : Path.tidy sourceRequest.file.render = "/A.elm" := by
  decide +kernel

/-- A file of the sample host is read as the text it was made from, if decoding its bytes gives this
text back. -/
theorem reads_sourceHost {source : String}
    (hdecode : Encoding.utf8.decode source.toUTF8.toList = .ok source.toList)
    (huniform : Encoding.uniformLines source.toList = source.toList) :
    sourceRequest.Reads (sourceHost source) source.toList := by
  have htext : sourceRequest.file.render = Place.render ["A.elm"] ∧
      Path.tidy sourceRequest.file.render = Place.render ["A.elm"] := by
    decide +kernel
  have hlocate :=
    (isAt_sourceHost source).locate_eq (by decide) (by decide) (sourceHost source).here
  refine ⟨by decide, ?_, _, _, ?_, hdecode, huniform⟩
  · rw [isDirectory, htext.1, hlocate]
  · rw [FileTree.file?, htext.2, hlocate]

/-- A source text with blanks, but no line break, in front of the first declaration. -/
def indentedSource : String :=
  "  module A exposing (..)\nf = 1\n"

/-- The lines of the declarations of an indented text are right. -/
theorem runOutline_lines_indented :
    sourceRequest.Reads (sourceHost indentedSource) indentedSource.toList ∧
      ∃ entries,
        runOutline (sourceHost indentedSource) sourceRequest =
          .printing (sourceHost indentedSource) 0 [outlineBlock true "/A.elm" entries] ∧
        entries.map OutlineEntry.line = [1, 2] := by
  have hreads : sourceRequest.Reads (sourceHost indentedSource) indentedSource.toList :=
    reads_sourceHost (by decide +kernel) (by decide +kernel)
  have hbreak : '\n' ∉ leadingBlanks indentedSource.toList := by decide +kernel
  obtain ⟨entries, hrun, hentries⟩ := runOutline_lines hreads
  rw [title_sourceRequest] at hrun
  refine ⟨hreads, entries, hrun, ?_⟩
  have hstarts : (outlined false (trimEnd indentedSource.toList)).map Token.start = [2, 25] := by
    decide +kernel
  have hlines : entries.map OutlineEntry.line =
      ((outlined false (trimEnd indentedSource.toList)).map Token.start).map
        (lineAt indentedSource.toList) := by
    rw [List.map_map, eq_comm, ← List.forall₂_eq_eq_eq, List.forall₂_map_left_iff,
      List.forall₂_map_right_iff]
    exact hentries.imp fun token entry hentry => (hentry.line_eq_iff.mpr hbreak).symm
  rw [hlines, hstarts]
  decide +kernel

/-- A source text with line breaks in front of the first declaration. -/
def lateSource : String :=
  "\n\nmodule A exposing (..)\n"

/-- The line that is printed for the module statement is short of the line breaks in front of it. -/
theorem runOutline_short_of_lateSource :
    sourceRequest.Reads (sourceHost lateSource) lateSource.toList ∧
      runOutline (sourceHost lateSource) sourceRequest =
        .printing (sourceHost lateSource) 0
          [outlineBlock true "/A.elm" [⟨"module_statement", 1, "module A exposing (..)"⟩]] ∧
      (outlined false (trimEnd lateSource.toList)).map
        (fun token => lineAt lateSource.toList token.start) = [3] := by
  have hreads : sourceRequest.Reads (sourceHost lateSource) lateSource.toList :=
    reads_sourceHost (by decide +kernel) (by decide +kernel)
  have hentries : (outlined false (trim lateSource.toList)).map (entryOf (trim lateSource.toList)) =
      [⟨"module_statement", 1, "module A exposing (..)"⟩] := by
    decide +kernel
  have hrun := runOutline_eq hreads
  rw [title_sourceRequest, show sourceRequest.comments = false from rfl, hentries] at hrun
  exact ⟨hreads, hrun, by decide +kernel⟩

end CommandLine

end ElmReach
