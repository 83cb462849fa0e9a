import ElmReach.Toml.Number

/-!
# Reading dates and times
-/

namespace ElmReach.Toml

/-- Read a number of exactly `count` digits between two bounds. -/
def fixedNumber? (count low high : Nat) (text : List Char) : Option (Nat × List Char) :=
  let digits := text.take count
  let value := number 10 digits
  if digits.length = count ∧ digits.all Char.isDigit ∧ low ≤ value ∧ value ≤ high then
    some (value, text.drop count)
  else none

/-- Skip a character, if the text starts with it. -/
def skip? (c : Char) : List Char → Option (List Char)
  | [] => none
  | first :: rest => if first = c then some rest else none

/-- Read year, month and day with hyphens between them. The month may be too short for the day. -/
def date? (text : List Char) : Option (Date × List Char) := do
  let (year, text) ← fixedNumber? 4 0 9999 text
  let text ← skip? '-' text
  let (month, text) ← fixedNumber? 2 1 12 text
  let text ← skip? '-' text
  let (day, text) ← fixedNumber? 2 1 31 text
  return ({ year, month, day }, text)

/-- Read the microseconds behind a point, if there are any. Digits behind the sixth are dropped. -/
def microseconds (text : List Char) : Nat × List Char :=
  match text with
  | '.' :: rest =>
    let digits := rest.takeWhile Char.isDigit
    if digits.isEmpty then (0, text)
    else (number 10 ((digits ++ List.replicate 6 '0').take 6), rest.drop digits.length)
  | _ => (0, text)

/-- Read hour, minute and second with colons between them, and a fraction of the second. -/
def clockTime? (text : List Char) : Option (ClockTime × List Char) := do
  let (hour, text) ← fixedNumber? 2 0 23 text
  let text ← skip? ':' text
  let (minute, text) ← fixedNumber? 2 0 59 text
  let text ← skip? ':' text
  let (second, text) ← fixedNumber? 2 0 59 text
  let (microsecond, text) := microseconds text
  return ({ hour, minute, second, microsecond }, text)

/-- Read hours and minutes of an offset behind its sign. -/
def offsetMinutes? (text : List Char) : Option (Nat × List Char) := do
  let (hour, text) ← fixedNumber? 2 0 23 text
  let text ← skip? ':' text
  let (minute, text) ← fixedNumber? 2 0 59 text
  return (hour * 60 + minute, text)

/-- Read an offset from universal time, if there is one. -/
def offset (text : List Char) : Option UtcOffset × List Char :=
  match text with
  | [] => (none, text)
  | c :: rest =>
    if c = 'Z' ∨ c = 'z' then (some ⟨0⟩, rest)
    else if c = '+' ∨ c = '-' then
      match offsetMinutes? rest with
      | some (minutes, after) => (some ⟨if c = '-' then -minutes else minutes⟩, after)
      | none => (none, text)
    else (none, text)

/-- Read the time behind a date, if there is one. -/
def behindDate (date : Date) (text : List Char) : Value × List Char :=
  match text with
  | [] => (.date date, text)
  | c :: rest =>
    match if c = 'T' ∨ c = 't' ∨ c = ' ' then clockTime? rest else none with
    | some (time, after) =>
      let (offset, after) := offset after
      (.moment { date, time, offset }, after)
    | none => (.date date, text)

/-- Read a date or a time, if the text starts with one. The calendar must have the date. -/
def calendarValue? (text : List Char) : Option (Except Flaw (Value × List Char)) :=
  match date? text with
  | some (date, after) =>
    some (if date.isValid then .ok (behindDate date after) else .error .malformed)
  | none => (clockTime? text).map fun (time, after) => .ok (.time time, after)

end ElmReach.Toml
