import ElmReach.Encoding.Utf16
import ElmReach.Encoding.Utf8

/-!
# Text encodings

How the bytes of a source file become text: an encoding decodes bytes, and line breaks are made
uniform behind it. The encodings that every run knows are defined here, with the names under which
they are known; which others a run knows is up to its registry.
-/

namespace ElmReach

/-- A text encoding, as far as files are read in it. Bytes that it does not allow are the fault
`undecodable`; an encoding may end with another fault as well. The bytes have been read before, so
that none of its faults comes from the file system. -/
structure Encoding where
  /-- The text of some bytes. -/
  decode : List UInt8 → Except Fault (List Char)

namespace Encoding

/-- Decode ASCII bytes that stand at `position`. -/
def decodeAscii (position : Nat) : List UInt8 → Except DecodeFault (List Char)
  | [] => .ok []
  | byte :: rest =>
    if byte < 128 then do
      let text ← decodeAscii (position + 1) rest
      return Char.ofNat byte.toNat :: text
    else
      .error
        { codec := "ascii", start := position, bytes := [byte]
          reason := "ordinal not in range(128)" }

/-- An encoding that can only fail for its bytes. -/
def ofDecoder (decoder : List UInt8 → Except DecodeFault (List Char)) : Encoding where
  decode bytes := (decoder bytes).mapError .undecodable

/-- ASCII: one byte for each character, the upper half of the bytes unused. -/
def ascii : Encoding := ofDecoder (decodeAscii 0)

/-- Latin-1: each byte is the code point of a character. -/
def latin1 : Encoding where
  decode bytes := .ok (bytes.map fun byte => Char.ofNat byte.toNat)

/-- UTF-8. -/
def utf8 : Encoding := ofDecoder Utf8.decode

/-- UTF-8 after an optional byte-order mark. -/
def utf8Marked : Encoding := ofDecoder Utf8.decodeMarked

/-- UTF-16 in a fixed order of bytes. -/
def utf16In (order : Utf16.ByteOrder) : Encoding := ofDecoder (Utf16.decodeAt order 0)

/-- UTF-16 after a byte-order mark, without which there is no text. -/
def utf16 : Encoding where
  decode bytes :=
    match Utf16.decodeMarked bytes with
    | .ok (some text) => .ok text
    | .ok none => .error .missingByteOrderMark
    | .error fault => .error (.undecodable fault)

/-- The names of the encodings that every run knows. -/
def names : List (String × Encoding) :=
  [("ascii", .ascii), ("latin_1", .latin1), ("utf_8", .utf8), ("utf_8_sig", .utf8Marked),
    ("utf_16", .utf16), ("utf_16_le", .utf16In .littleEndian), ("utf_16_be", .utf16In .bigEndian)]

/-- Other names under which the encodings are known. -/
def aliases : List (String × Encoding) :=
  [("646", .ascii), ("ansi_x3.4_1968", .ascii), ("ansi_x3_4_1968", .ascii),
    ("ansi_x3.4_1986", .ascii), ("cp367", .ascii), ("csascii", .ascii), ("ibm367", .ascii),
    ("iso646_us", .ascii), ("iso_646.irv_1991", .ascii), ("iso_ir_6", .ascii), ("us", .ascii),
    ("us_ascii", .ascii),
    ("8859", .latin1), ("cp819", .latin1), ("csisolatin1", .latin1), ("ibm819", .latin1),
    ("iso8859", .latin1), ("iso8859_1", .latin1), ("iso_8859_1", .latin1),
    ("iso_8859_1_1987", .latin1), ("iso_ir_100", .latin1), ("l1", .latin1), ("latin", .latin1),
    ("latin1", .latin1),
    ("u8", .utf8), ("utf", .utf8), ("utf8", .utf8), ("utf8_ucs2", .utf8), ("utf8_ucs4", .utf8),
    ("cp65001", .utf8),
    ("u16", .utf16), ("utf16", .utf16),
    ("unicodelittleunmarked", .utf16In .littleEndian), ("utf_16le", .utf16In .littleEndian),
    ("unicodebigunmarked", .utf16In .bigEndian), ("utf_16be", .utf16In .bigEndian)]

/-- The normal form of a name: lower case, with an underscore for each run of characters other
than ASCII letters, ASCII digits and dots between two of these. `pending` tells that such a run has
been read, and `started` that something stands in front of it. -/
def normalName (started pending : Bool) : List Char → List Char
  | [] => []
  | c :: rest =>
    if c.isAlphanum || c == '.' then
      (if started && pending then ['_'] else []) ++ c.toLower :: normalName true false rest
    else normalName started true rest

/-- The encoding of a name, among those that every run knows. An alias may be written with dots
instead of underscores. -/
def named? (name : String) : Option Encoding :=
  let normal := normalName false false name.toList
  let underscored := normal.map fun c => if c = '.' then '_' else c
  (aliases.lookup (String.ofList normal)).or
    ((aliases.lookup (String.ofList underscored)).or (names.lookup (String.ofList normal)))

/-- The text with a line feed for each line break. -/
def uniformLines : List Char → List Char
  | '\r' :: '\n' :: rest => '\n' :: uniformLines rest
  | '\r' :: rest => '\n' :: uniformLines rest
  | c :: rest => c :: uniformLines rest
  | [] => []

end Encoding

end ElmReach
