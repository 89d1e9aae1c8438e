/-!
Calendar dates and times of day, as settings files write them.
-/

namespace ModuleLink

structure Date where
  year : Nat
  month : Nat
  day : Nat

structure Clock where
  hour : Nat
  minute : Nat
  second : Nat
  micro : Nat

/-- A date, a time, or both, with the distance from universal time in minutes if it is known. -/
inductive Moment where
  | date (d : Date)
  | clock (c : Clock)
  | both (d : Date) (c : Clock) (offset : Option Int)

namespace Date

def isLeap (year : Nat) : Bool := year % 4 == 0 && (year % 100 != 0 || year % 400 == 0)

def monthLength (year month : Nat) : Nat :=
  if month == 2 then (if isLeap year then 29 else 28)
  else if month == 4 || month == 6 || month == 9 || month == 11 then 30
  else 31

/-- The day exists.  Years count from one. -/
def isValid (d : Date) : Bool :=
  1 ≤ d.year && 1 ≤ d.month && d.month ≤ 12 && 1 ≤ d.day && d.day ≤ monthLength d.year d.month

end Date

namespace Moment

/-- A number with zeros in front up to a width. -/
def padded (width n : Nat) : String :=
  let digits := toString n
  String.ofList (List.replicate (width - digits.length) '0') ++ digits

def dateText (d : Date) : String := padded 4 d.year ++ "-" ++ padded 2 d.month ++ "-" ++ padded 2 d.day

def clockText (c : Clock) : String :=
  padded 2 c.hour ++ ":" ++ padded 2 c.minute ++ ":" ++ padded 2 c.second ++
    if c.micro = 0 then "" else "." ++ padded 6 c.micro

def offsetText (minutes : Int) : String :=
  (if minutes < 0 then "-" else "+") ++ padded 2 (minutes.natAbs / 60) ++ ":" ++ padded 2 (minutes.natAbs % 60)

def text : Moment → String
  | date d => dateText d
  | clock c => clockText c
  | both d c offset => dateText d ++ " " ++ clockText c ++ (offset.map offsetText).getD ""

/-! ## As a call that makes the value -/

def dateArguments (d : Date) : List String := [toString d.year, toString d.month, toString d.day]

/-- Seconds and below are left out as long as they are zero. -/
def clockArguments (c : Clock) : List String :=
  [toString c.hour, toString c.minute] ++
    if c.micro ≠ 0 then [toString c.second, toString c.micro]
    else if c.second ≠ 0 then [toString c.second]
    else []

def offsetArgument (minutes : Int) : String :=
  if minutes = 0 then "tzinfo=datetime.timezone.utc"
  else
    let span :=
      if minutes < 0 then "days=-1, seconds=" ++ toString ((minutes + 1440).toNat * 60)
      else "seconds=" ++ toString (minutes.toNat * 60)
    "tzinfo=datetime.timezone(datetime.timedelta(" ++ span ++ "))"

def call (name : String) (arguments : List String) : String :=
  "datetime." ++ name ++ "(" ++ String.intercalate ", " arguments ++ ")"

def display : Moment → String
  | date d => call "date" (dateArguments d)
  | clock c => call "time" (clockArguments c)
  | both d c offset =>
    call "datetime" (dateArguments d ++ clockArguments c ++ (offset.map offsetArgument).toList)

end Moment
end ModuleLink
