import ElmReach.Value

/-!
# Reading numbers

Integers in four bases, and real numbers. Single underscores may stand between digits.
-/

namespace ElmReach.Toml

/-- Why a text is no document. -/
inductive Flaw where
  | malformed
  /-- An integer has more digits than are read. -/
  | longNumeral (digits : Nat)
  /-- Arrays and inline tables are nested too deep. -/
  | tooDeep
  deriving DecidableEq, Repr

/-- Whether `c` is a hexadecimal digit. -/
def isHexDigit (c : Char) : Bool :=
  c.isDigit || ('a' ≤ c && c ≤ 'f') || ('A' ≤ c && c ≤ 'F')

/-- The value of a hexadecimal digit. -/
def digitValue (c : Char) : Nat :=
  if c.isDigit then c.toNat - '0'.toNat
  else if 'a' ≤ c then c.toNat - 'a'.toNat + 10
  else c.toNat - 'A'.toNat + 10

/-- The number that digits stand for. -/
def number (base : Nat) (digits : List Char) : Nat :=
  digits.foldl (fun value digit => value * base + digitValue digit) 0

/-- The digits behind a first digit, without the single underscores between them, and what
follows. -/
def moreDigits (isDigit : Char → Bool) : List Char → List Char × List Char
  | '_' :: c :: rest =>
    if isDigit c then
      let (digits, after) := moreDigits isDigit rest
      (c :: digits, after)
    else ([], '_' :: c :: rest)
  | c :: rest =>
    if isDigit c then
      let (digits, after) := moreDigits isDigit rest
      (c :: digits, after)
    else ([], c :: rest)
  | [] => ([], [])

/-- Read one digit and those behind it. -/
def digits? (isDigit : Char → Bool) : List Char → Option (List Char × List Char)
  | c :: rest =>
    if isDigit c then
      let (digits, after) := moreDigits isDigit rest
      some (c :: digits, after)
    else none
  | [] => none

/-- Read a number in base 16, 2 or 8. -/
def basedNumber? (text : List Char) : Option (Nat × List Char) :=
  match text with
  | '0' :: 'x' :: rest => (digits? isHexDigit rest).map fun (ds, after) => (number 16 ds, after)
  | '0' :: 'b' :: rest =>
    (digits? (fun c => c == '0' || c == '1') rest).map fun (ds, after) => (number 2 ds, after)
  | '0' :: 'o' :: rest =>
    (digits? (fun c => '0' ≤ c && c ≤ '7') rest).map fun (ds, after) => (number 8 ds, after)
  | _ => none

/-- Read a sign, and tell whether it is a minus. -/
def sign (text : List Char) : Bool × List Char :=
  match text with
  | '-' :: rest => (true, rest)
  | '+' :: rest => (false, rest)
  | _ => (false, text)

/-- Read the whole digits of a decimal number: a single zero, or digits that start with another
one. -/
def whole? (text : List Char) : Option (List Char × List Char) :=
  match text with
  | '0' :: rest => some (['0'], rest)
  | _ => digits? Char.isDigit text

/-- Read the fraction of a number, if there is one. -/
def fraction (text : List Char) : List Char × List Char :=
  match text with
  | '.' :: rest => (digits? Char.isDigit rest).getD ([], text)
  | _ => ([], text)

/-- Read the exponent of a number, if there is one. -/
def exponent (text : List Char) : Option Int × List Char :=
  match text with
  | c :: rest =>
    if c = 'e' ∨ c = 'E' then
      let (negative, unsigned) := sign rest
      match digits? Char.isDigit unsigned with
      | some (ds, after) =>
        let size : Int := number 10 ds
        (some (if negative then -size else size), after)
      | none => (none, text)
    else (none, text)
  | [] => (none, text)

/-- Read a decimal number: an integer, or a real number if it has a fraction or an exponent. -/
def decimal? (text : List Char) : Option (Except Flaw (Value × List Char)) :=
  let (negative, unsigned) := sign text
  (whole? unsigned).map fun (whole, behindWhole) =>
    let (places, behindPlaces) := fraction behindWhole
    let (power, after) := exponent behindPlaces
    if places.isEmpty && power.isNone then
      if Value.maxIntDigits < whole.length then .error (.longNumeral whole.length)
      else
        let size : Int := number 10 whole
        .ok (.int (if negative then -size else size), after)
    else
      .ok
        (.real (.ofDecimal negative (number 10 (whole ++ places)) (power.getD 0 - places.length)),
          after)

/-- Read infinity or a number that is none. -/
def specialNumber? (text : List Char) : Option (Value × List Char) :=
  let (negative, unsigned) := sign text
  match unsigned with
  | 'i' :: 'n' :: 'f' :: after =>
    some (.real (if negative then .negativeInfinity else .infinity), after)
  | 'n' :: 'a' :: 'n' :: after => some (.real .nan, after)
  | _ => none

/-- Read a number, if the text starts with one. -/
def number? (text : List Char) : Option (Except Flaw (Value × List Char)) :=
  ((basedNumber? text).map fun (value, after) => .ok (.int value, after)).or
    ((decimal? text).or ((specialNumber? text).map .ok))

end ElmReach.Toml
