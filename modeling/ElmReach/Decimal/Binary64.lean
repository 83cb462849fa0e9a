/-!
# Double precision numbers and their shortest decimal text

A double precision number is kept by its 64 bits. Its text has the fewest digits that read back as
the same number, and of those the nearest to it. The search is by exact arithmetic: the number is
`mantissa · 2 ^ exponent`, and the reals that round to it form an interval around it.
-/

namespace ElmReach

/-- A double precision number, by its bits. -/
structure Binary64 where
  bits : UInt64
  deriving DecidableEq, Repr

namespace Binary64

/-- A power of two. -/
def twoPow (n : Nat) : Nat := Nat.pow 2 n

/-- A power of ten. -/
def tenPow (n : Nat) : Nat := Nat.pow 10 n

/-- Whether the sign bit is set. -/
def isNegative (number : Binary64) : Bool :=
  number.bits.toNat / twoPow 63 = 1

/-- The eleven exponent bits. -/
def exponentBits (number : Binary64) : Nat :=
  number.bits.toNat / twoPow 52 % twoPow 11

/-- The fifty-two fraction bits. -/
def fractionBits (number : Binary64) : Nat :=
  number.bits.toNat % twoPow 52

/-- The mantissa, with the leading bit that is not stored. -/
def mantissa (number : Binary64) : Nat :=
  if number.exponentBits = 0 then number.fractionBits else twoPow 52 + number.fractionBits

/-- The power of two that the mantissa counts. -/
def exponent (number : Binary64) : Int :=
  (max 1 number.exponentBits : Nat) - 1075

/-- The number nearest to `± digits · 10 ^ power`. -/
def ofDecimal (negative : Bool) (digits : Nat) (power : Int) : Binary64 :=
  let magnitude : Float :=
    if digits = 0 then 0.0
    else if power + (Nat.toDigits 10 digits).length > 400 then 1.0 / 0.0
    else if power + (Nat.toDigits 10 digits).length < -400 then 0.0
    else if 0 ≤ power then Float.ofScientific (digits * tenPow power.toNat) false 0
    else Float.ofScientific digits true (-power).toNat
  ⟨(if negative then -magnitude else magnitude).toBits⟩

/-- Positive infinity. -/
def infinity : Binary64 := ⟨0x7FF0000000000000⟩

/-- Negative infinity. -/
def negativeInfinity : Binary64 := ⟨0xFFF0000000000000⟩

/-- A number that is none. -/
def nan : Binary64 := ⟨0x7FF8000000000000⟩

/-- Multiply `n` by `2 ^ power`, scaled by `2 ^ 1100` to stay whole. -/
def scaled (n : Nat) (power : Int) : Nat :=
  n * twoPow (power + 1100).toNat

/-- Four times the ends of the interval of reals that round to the number, and the number itself,
all scaled. -/
def interval (number : Binary64) : Nat × Nat × Nat :=
  let m := number.mantissa
  let below := if m = twoPow 52 ∧ 1 < number.exponentBits then 1 else 2
  (scaled (4 * m - below) (number.exponent - 2), scaled (4 * m) (number.exponent - 2),
    scaled (4 * m + 2) (number.exponent - 2))

/-- The value `digits · 10 ^ power`, scaled like the interval, as a fraction. -/
def decimalScaled (digits : Nat) (power : Int) : Nat × Nat :=
  if 0 ≤ power then (digits * tenPow power.toNat * twoPow 1100, 1)
  else (digits * twoPow 1100, tenPow (-power).toNat)

/-- Whether `digits · 10 ^ power` rounds to the number. The ends of the interval belong to it if
the mantissa is even. -/
def readsBack (number : Binary64) (digits : Nat) (power : Int) : Bool :=
  let (low, _, high) := number.interval
  let (top, bottom) := decimalScaled digits power
  if number.mantissa % 2 = 0 then low * bottom ≤ top && top ≤ high * bottom
  else low * bottom < top && top < high * bottom

/-- Whether `upper · 10 ^ power` is nearer to the number than `(upper - 1) · 10 ^ power`, or as near
and even. -/
def upperNearer (number : Binary64) (upper : Nat) (power : Int) : Bool :=
  let (_, value, _) := number.interval
  let (top, bottom) := decimalScaled (2 * upper - 1) power
  if top = 2 * value * bottom then upper % 2 = 0 else top < 2 * value * bottom

/-- The number, divided by `10 ^ power` and rounded down. -/
def quotient (number : Binary64) (power : Int) : Nat :=
  let (_, value, _) := number.interval
  if 0 ≤ power then value / (twoPow 1100 * tenPow power.toNat)
  else value * tenPow (-power).toNat / twoPow 1100

/-- The decimal of at most `count` digits nearest to the number, if it reads back; `leading` is the
power of ten of the number's first digit. -/
def withDigits? (number : Binary64) (leading : Int) (count : Nat) : Option (Nat × Int) :=
  let power := leading - count + 1
  let lower := number.quotient power
  match number.readsBack lower power, number.readsBack (lower + 1) power with
  | true, true => some (if number.upperNearer (lower + 1) power then lower + 1 else lower, power)
  | true, false => some (lower, power)
  | false, true => some (lower + 1, power)
  | false, false => none

/-- The power of ten of the number's first digit: the largest whose quotient is not zero. -/
def leadingPower (number : Binary64) : Int :=
  let powers : List Int := (List.range 640).map fun (n : Nat) => 310 - (n : Int)
  (powers.find? fun power => number.quotient power ≠ 0).getD 0

/-- The shortest decimal that reads back, as digits and a power of ten. -/
def shortest (number : Binary64) : Nat × Int :=
  let leading := number.leadingPower
  ((List.range 17).findSome? fun n => number.withDigits? leading (n + 1)).getD (0, 0)

/-- Digits without zeros at their end. -/
def dropZeros (digits : List Char) : List Char :=
  (digits.reverse.dropWhile (· == '0')).reverse

/-- Write `0.d₁d₂… · 10 ^ point`: positionally for points from -3 to 16, with a mantissa of one
digit before the point and an exponent of at least two digits otherwise. -/
def layout (digits : List Char) (point : Int) : String :=
  let text : List Char :=
    if -4 < point ∧ point ≤ 16 then
      if point ≤ 0 then '0' :: '.' :: List.replicate (-point).toNat '0' ++ digits
      else
        let whole := digits.take point.toNat ++ List.replicate (point.toNat - digits.length) '0'
        let rest := digits.drop point.toNat
        whole ++ '.' :: (if rest.isEmpty then ['0'] else rest)
    else
      let power := point - 1
      let shown := Nat.toDigits 10 power.natAbs
      let fraction := digits.drop 1
      digits.take 1 ++ (if fraction.isEmpty then [] else '.' :: fraction) ++
        'e' :: (if power < 0 then '-' else '+') ::
          (List.replicate (2 - shown.length) '0' ++ shown)
  String.ofList text

/-- The text of a number. -/
def render (number : Binary64) : String :=
  let sign := if number.isNegative then "-" else ""
  if number.exponentBits = 2047 then
    if number.fractionBits = 0 then sign ++ "inf" else "nan"
  else if number.mantissa = 0 then sign ++ "0.0"
  else
    let (digits, power) := number.shortest
    let shown := Nat.toDigits 10 digits
    sign ++ layout (dropZeros shown) (power + shown.length)

end Binary64

end ElmReach
