/-!
# Dates and times

Dates of the Gregorian calendar, times of the day, and moments, which have both. Each has a plain
text, as it is usually written, and a constructed text, which says how it is made of its parts.
-/

namespace ElmReach

/-- A number, filled up with zeros to a width. -/
def paddedNumber (width n : Nat) : String :=
  let digits := Nat.toDigits 10 n
  String.ofList (List.replicate (width - digits.length) '0' ++ digits)

/-- A text that makes something of numbers. -/
def construction (name : String) (parts : List String) : String :=
  "datetime." ++ name ++ "(" ++ ", ".intercalate parts ++ ")"

/-- A date. -/
structure Date where
  year : Nat
  month : Nat
  day : Nat
  deriving DecidableEq, Repr

namespace Date

/-- Whether a year has a leap day. -/
def isLeap (year : Nat) : Bool :=
  year % 4 = 0 && (year % 100 ≠ 0 || year % 400 = 0)

/-- The number of days of a month. -/
def daysIn (year month : Nat) : Nat :=
  if month = 2 then if isLeap year then 29 else 28
  else if month ∈ [4, 6, 9, 11] then 30
  else 31

/-- Whether the calendar has the date. -/
def isValid (date : Date) : Bool :=
  1 ≤ date.year && 1 ≤ date.month && date.month ≤ 12 && 1 ≤ date.day &&
    date.day ≤ daysIn date.year date.month

/-- The year in four digits, month and day in two, with hyphens between them. -/
def plain (date : Date) : String :=
  "-".intercalate
    [paddedNumber 4 date.year, paddedNumber 2 date.month, paddedNumber 2 date.day]

/-- The numbers of a date. -/
def parts (date : Date) : List Nat :=
  [date.year, date.month, date.day]

/-- The constructed text of a date. -/
def constructed (date : Date) : String :=
  construction "date" (date.parts.map toString)

end Date

/-- A time of the day. -/
structure ClockTime where
  hour : Nat
  minute : Nat
  second : Nat
  microsecond : Nat
  deriving DecidableEq, Repr

namespace ClockTime

/-- Hour, minute and second in two digits, with the microseconds behind a point if there are any. -/
def plain (time : ClockTime) : String :=
  let whole :=
    ":".intercalate
      [paddedNumber 2 time.hour, paddedNumber 2 time.minute, paddedNumber 2 time.second]
  if time.microsecond = 0 then whole else whole ++ "." ++ paddedNumber 6 time.microsecond

/-- The numbers of a time, up to the last one that is not zero, but at least hour and minute. -/
def parts (time : ClockTime) : List Nat :=
  if time.microsecond ≠ 0 then [time.hour, time.minute, time.second, time.microsecond]
  else if time.second ≠ 0 then [time.hour, time.minute, time.second]
  else [time.hour, time.minute]

/-- The constructed text of a time. -/
def constructed (time : ClockTime) : String :=
  construction "time" (time.parts.map toString)

end ClockTime

/-- The distance of a local time from universal time, in minutes. -/
structure UtcOffset where
  minutes : Int
  deriving DecidableEq, Repr

namespace UtcOffset

/-- The sign, the hours and the minutes. -/
def plain (offset : UtcOffset) : String :=
  let size := offset.minutes.natAbs
  (if offset.minutes < 0 then "-" else "+") ++ paddedNumber 2 (size / 60) ++ ":" ++
    paddedNumber 2 (size % 60)

/-- The number of seconds of a day. -/
def secondsPerDay : Nat := 86400

/-- The constructed text of an offset. A negative offset is a day less than none, and some
seconds. -/
def constructed (offset : UtcOffset) : String :=
  let seconds := offset.minutes.natAbs * 60
  if offset.minutes = 0 then "datetime.timezone.utc"
  else
    let parts :=
      if offset.minutes < 0 then ["days=-1", "seconds=" ++ toString (secondsPerDay - seconds)]
      else ["seconds=" ++ toString seconds]
    construction "timezone" [construction "timedelta" parts]

end UtcOffset

/-- A date and a time of the day. -/
structure Moment where
  date : Date
  time : ClockTime
  /-- The distance from universal time, if it is known. -/
  offset : Option UtcOffset
  deriving DecidableEq, Repr

namespace Moment

/-- Date, time and offset. -/
def plain (moment : Moment) : String :=
  moment.date.plain ++ " " ++ moment.time.plain ++ (moment.offset.map UtcOffset.plain).getD ""

/-- The constructed text of a moment. -/
def constructed (moment : Moment) : String :=
  let zone := moment.offset.toList.map fun offset => "tzinfo=" ++ offset.constructed
  construction "datetime" ((moment.date.parts ++ moment.time.parts).map toString ++ zone)

end Moment

end ElmReach
