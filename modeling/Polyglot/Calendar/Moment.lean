/-!
Dates, times of day and both together, with their written forms.
-/

namespace Polyglot

structure Date where
  year : Nat
  month : Nat
  day : Nat
  deriving DecidableEq

structure TimeOfDay where
  hour : Nat
  minute : Nat
  second : Nat
  micro : Nat := 0
  deriving DecidableEq

/--
A point of the calendar; a full one may say how many minutes it is ahead of universal time.
-/
inductive Moment where
  | date (d : Date)
  | time (t : TimeOfDay)
  | full (d : Date) (t : TimeOfDay) (ahead : Option Int)
  deriving DecidableEq

def isLeapYear (y : Nat) : Bool :=
  y % 4 == 0 && (y % 100 != 0 || y % 400 == 0)

def daysInMonth (y m : Nat) : Nat :=
  if m == 2 then if isLeapYear y then 29 else 28
  else if m == 4 || m == 6 || m == 9 || m == 11 then 30 else 31

namespace Date

def isValid (d : Date) : Bool :=
  1 ≤ d.year && d.year ≤ 9999 && 1 ≤ d.month && d.month ≤ 12 && 1 ≤ d.day &&
    d.day ≤ daysInMonth d.year d.month

def next (d : Date) : Date :=
  if d.day < daysInMonth d.year d.month then { d with day := d.day + 1 }
  else if d.month < 12 then ⟨d.year, d.month + 1, 1⟩ else ⟨d.year + 1, 1, 1⟩

def previous (d : Date) : Date :=
  if 1 < d.day then { d with day := d.day - 1 }
  else if 1 < d.month then ⟨d.year, d.month - 1, daysInMonth d.year (d.month - 1)⟩
  else ⟨d.year - 1, 12, 31⟩

end Date

def TimeOfDay.isValid (t : TimeOfDay) : Bool :=
  t.hour < 24 && t.minute < 60 && t.second < 60 && t.micro < 1000000

def padNumber (width n : Nat) : String :=
  let s := toString n
  String.ofList (List.replicate (width - s.length) '0') ++ s

def Date.text (d : Date) : String :=
  padNumber 4 d.year ++ "-" ++ padNumber 2 d.month ++ "-" ++ padNumber 2 d.day

def TimeOfDay.text (t : TimeOfDay) : String :=
  padNumber 2 t.hour ++ ":" ++ padNumber 2 t.minute ++ ":" ++ padNumber 2 t.second ++
    if t.micro = 0 then "" else "." ++ padNumber 6 t.micro

def offsetText (ahead : Int) : String :=
  (if ahead < 0 then "-" else "+") ++ padNumber 2 (ahead.natAbs / 60) ++ ":" ++
    padNumber 2 (ahead.natAbs % 60)

namespace Moment

def text : Moment → String
  | date d => d.text
  | time t => t.text
  | full d t ahead => d.text ++ " " ++ t.text ++ (ahead.map offsetText).getD ""

def kind : Moment → String
  | date _ => "date"
  | time _ => "time"
  | full .. => "datetime"

def spelled : Moment → String
  | date d => "datetime.date(" ++ numbers (days d) ++ ")"
  | time t => "datetime.time(" ++ numbers (parts t) ++ ")"
  | full d t ahead =>
    "datetime.datetime(" ++ numbers (days d ++ parts t) ++ (ahead.map zone).getD "" ++ ")"
where
  numbers (ns : List Nat) : String := ", ".intercalate (ns.map toString)
  days (d : Date) : List Nat := [d.year, d.month, d.day]
  parts (t : TimeOfDay) : List Nat :=
    [t.hour, t.minute] ++ if t.micro = 0 then if t.second = 0 then [] else [t.second]
      else [t.second, t.micro]
  zone (ahead : Int) : String :=
    if ahead = 0 then ", tzinfo=datetime.timezone.utc"
    else
      let minutes := ahead.emod 1440
      let seconds := "seconds=" ++ toString (minutes * 60)
      ", tzinfo=datetime.timezone(datetime.timedelta(" ++
        (if ahead < 0 then "days=-1, " ++ seconds else seconds) ++ "))"

end Moment

end Polyglot
