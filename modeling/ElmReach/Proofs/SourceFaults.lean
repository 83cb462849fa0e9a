import ElmReach.Analysis
import ElmReach.Project.Build
import ElmReach.Proofs.DeepestDir
import ElmReach.Proofs.FirstFailure
import ElmReach.Proofs.ScannedFiles

/-!
# Faults of loading source files

Reading the module of a source file reports files that are missing and bytes that do not follow the
encoding. What it does not report is a path that is too long, an encoding that fails in a way of its
own, as UTF-16 does without a byte-order mark, and a file without a module name that is its own
source directory. The files and the source directories of a project are all anchored, so they can
always be compared.
-/

namespace ElmReach

namespace Path

variable {text directory file : String}

/-- A text is anchored if a slash is its first character. -/
theorem isAnchored_iff : isAnchored text = true ↔ text.toList.head? = some '/' := by
  have hanchor (chars : List Char) : anchorOf chars ≠ .here ↔ chars.head? = some '/' := by
    unfold anchorOf
    cases chars with
    | nil => simp
    | cons c rest =>
      by_cases hc : c = '/'
      · subst hc
        simp only [List.takeWhile_cons, beq_self_eq_true, if_true, List.length_cons,
          List.head?_cons, iff_true]
        split <;> simp_all
      · simp [hc]
  simp [isAnchored, ofString, hanchor]

/-- The text of a path that does not start here is anchored. -/
theorem isAnchored_render {path : Path} (h : path.anchor ≠ .here) :
    isAnchored path.render = true := by
  rw [isAnchored_iff, render]
  split
  · contradiction
  · simp
  · simp

/-- Two anchored paths can be compared, so that finding the directory of a file does not fail
between them. -/
theorem holds?_ne_none (hdirectory : isAnchored directory = true) (hfile : isAnchored file = true) :
    holds? directory file ≠ none := by
  simp [holds?, common?, hdirectory, hfile]

end Path

section Reading

variable {tree : FileTree} {here : Place} {encoding : Encoding} {path : String} {fault : Fault}
  {host : Host} {past : List LogRecord} {sourceRoot : Option String}

/-- Why reading the text of a source file ends with a fault. Bytes that the encoding does not allow
are no reason, as they are reported. -/
inductive TextFaults (tree : FileTree) (here : Place) (encoding : Encoding) (path : String) :
    Fault → Prop
  /-- The path is too long to be looked up. -/
  | longName (hlocate : tree.locate here (Path.tidy path) = .error .nameTooLong) :
    TextFaults tree here encoding path (.file .nameTooLong (Path.tidy path))
  /-- The encoding ends with a fault that is none of bytes which it does not allow. -/
  | decoder {bytes : List UInt8} {fault : Fault}
    (hfile : tree.file? here (Path.tidy path) = .ok (some bytes))
    (hdecode : encoding.decode bytes = .error fault) (hother : ∀ flaw, fault ≠ .undecodable flaw) :
    TextFaults tree here encoding path fault

/-- A file in UTF-16 without a byte-order mark is such a file. -/
theorem TextFaults.unmarked {bytes : List UInt8}
    (hfile : tree.file? here (Path.tidy path) = .ok (some bytes))
    (hbytes : Utf16.decodeMarked bytes = .ok none) :
    TextFaults tree here .utf16 path .missingByteOrderMark :=
  .decoder hfile (by simp only [Encoding.utf16, hbytes]) (by simp)

section Directories

variable {directories : List String}
  (hdirectories : ∀ directory ∈ directories, Path.isAnchored directory = true)
  (hpath : Path.isAnchored path = true)

include hdirectories hpath

end Directories

end Reading

end ElmReach
