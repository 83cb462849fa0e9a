import ElmReach.Failure

/-!
# UTF-8

A character takes one to four bytes. The lead byte fixes how many continuation bytes follow and in
which range each of them lies; the ranges leave out overlong forms, surrogates and code points
beyond the last one. Decoding stops at the first byte that does not fit and says where.
-/

namespace ElmReach.Utf8

/-- The ranges of the continuation bytes after a lead byte, if it is one. -/
def shape? (lead : UInt8) : Option (List (UInt8 × UInt8)) :=
  if lead < 0x80 then some []
  else if lead < 0xC2 then none
  else if lead < 0xE0 then some [(0x80, 0xBF)]
  else if lead = 0xE0 then some [(0xA0, 0xBF), (0x80, 0xBF)]
  else if lead = 0xED then some [(0x80, 0x9F), (0x80, 0xBF)]
  else if lead < 0xF0 then some [(0x80, 0xBF), (0x80, 0xBF)]
  else if lead = 0xF0 then some [(0x90, 0xBF), (0x80, 0xBF), (0x80, 0xBF)]
  else if lead < 0xF4 then some [(0x80, 0xBF), (0x80, 0xBF), (0x80, 0xBF)]
  else if lead = 0xF4 then some [(0x80, 0x8F), (0x80, 0xBF), (0x80, 0xBF)]
  else none

/-- The bits of the code point that a lead byte holds. -/
def leadBits (lead : UInt8) : Nat :=
  if lead < 0x80 then lead.toNat
  else if lead < 0xE0 then lead.toNat - 0xC0
  else if lead < 0xF0 then lead.toNat - 0xE0
  else lead.toNat - 0xF0

/-- Why the bytes behind a lead byte do not continue it. -/
inductive Break where
  | wrongByte
  | endOfData

/-- Number of bytes that fit the ranges, and why the next one does not, if the ranges are not all
used up. -/
def matching : List (UInt8 × UInt8) → List UInt8 → Nat × Option Break
  | [], _ => (0, none)
  | _ :: _, [] => (0, some .endOfData)
  | (low, high) :: ranges, byte :: rest =>
    if low ≤ byte ∧ byte ≤ high then
      let (count, stop) := matching ranges rest
      (count + 1, stop)
    else (0, some .wrongByte)

/-- The code point of a lead byte and its continuation bytes. -/
def codePoint (lead : UInt8) (continuation : List UInt8) : Nat :=
  continuation.foldl (fun bits byte => bits * 64 + (byte.toNat - 0x80)) (leadBits lead)

/-- Decode bytes that stand at `position`. -/
def decodeAt (position : Nat) : List UInt8 → Except DecodeFault (List Char)
  | [] => .ok []
  | lead :: rest =>
    let fault (count : Nat) (reason : String) : DecodeFault :=
      { codec := "utf-8", start := position, bytes := lead :: rest.take count, reason }
    match shape? lead with
    | none => .error (fault 0 "invalid start byte")
    | some ranges =>
      match matching ranges rest with
      | (count, some .wrongByte) => .error (fault count "invalid continuation byte")
      | (count, some .endOfData) => .error (fault count "unexpected end of data")
      | (count, none) => do
        let others ← decodeAt (position + count + 1) (rest.drop count)
        return Char.ofNat (codePoint lead (rest.take count)) :: others
termination_by bytes => bytes.length
decreasing_by
  simp only [List.length_drop, List.length_cons]
  omega

/-- Decode bytes. -/
def decode (bytes : List UInt8) : Except DecodeFault (List Char) :=
  decodeAt 0 bytes

/-- The byte-order mark. -/
def byteOrderMark : List UInt8 := [0xEF, 0xBB, 0xBF]

/-- Decode bytes that may start with a byte-order mark. Positions count from behind the mark, and
bytes that break off inside the mark are an empty text. -/
def decodeMarked (bytes : List UInt8) : Except DecodeFault (List Char) :=
  if byteOrderMark.isPrefixOf bytes then decodeAt 0 (bytes.drop 3)
  else if bytes.isPrefixOf byteOrderMark then .ok []
  else decodeAt 0 bytes

end ElmReach.Utf8
