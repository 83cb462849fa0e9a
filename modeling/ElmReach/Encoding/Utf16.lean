import ElmReach.Failure

/-!
# UTF-16

A code unit is two bytes in one of two orders; a character beyond the first 65536 code points is a
pair of units, a high and a low surrogate. A text in UTF-16 without a fixed order starts with a
byte-order mark, which selects the order and does not belong to the text.
-/

namespace ElmReach.Utf16

/-- The order of the two bytes of a unit. -/
inductive ByteOrder where
  | littleEndian
  | bigEndian
  deriving DecidableEq, Repr

namespace ByteOrder

/-- The name of UTF-16 in this order. -/
def codec : ByteOrder → String
  | .littleEndian => "utf-16-le"
  | .bigEndian => "utf-16-be"

/-- The unit of two bytes. -/
def unit (order : ByteOrder) (first second : UInt8) : Nat :=
  match order with
  | .littleEndian => first.toNat + 256 * second.toNat
  | .bigEndian => 256 * first.toNat + second.toNat

end ByteOrder

/-- Whether a unit is the first of a pair. -/
def isHigh (unit : Nat) : Bool :=
  0xD800 ≤ unit && unit ≤ 0xDBFF

/-- Whether a unit is the second of a pair. -/
def isLow (unit : Nat) : Bool :=
  0xDC00 ≤ unit && unit ≤ 0xDFFF

/-- The code point of a pair. -/
def pairPoint (high low : Nat) : Nat :=
  0x10000 + (high - 0xD800) * 0x400 + (low - 0xDC00)

/-- Decode bytes that stand at `position`. -/
def decodeAt (order : ByteOrder) (position : Nat) :
    List UInt8 → Except DecodeFault (List Char)
  | [] => .ok []
  | [byte] =>
    .error { codec := order.codec, start := position, bytes := [byte], reason := "truncated data" }
  | a :: b :: rest =>
    let fault (bytes : List UInt8) (reason : String) : DecodeFault :=
      { codec := order.codec, start := position, bytes, reason }
    let unit := order.unit a b
    if isLow unit then .error (fault [a, b] "illegal encoding")
    else if isHigh unit then
      match rest with
      | c :: d :: others =>
        if isLow (order.unit c d) then do
          let text ← decodeAt order (position + 4) others
          return Char.ofNat (pairPoint unit (order.unit c d)) :: text
        else .error (fault [a, b] "illegal UTF-16 surrogate")
      | few => .error (fault (a :: b :: few) "unexpected end of data")
    else do
      let text ← decodeAt order (position + 2) rest
      return Char.ofNat unit :: text

/-- Decode bytes that start with a byte-order mark. The answer is nothing if there is no mark and
the bytes are well-formed in little-endian order; if they are not, that is the fault. -/
def decodeMarked (bytes : List UInt8) : Except DecodeFault (Option (List Char)) :=
  match bytes with
  | 0xFF :: 0xFE :: rest => some <$> decodeAt .littleEndian 2 rest
  | 0xFE :: 0xFF :: rest => some <$> decodeAt .bigEndian 2 rest
  | [] => .ok (some [])
  | _ => (fun _ => none) <$> decodeAt .littleEndian 0 bytes

end ElmReach.Utf16
