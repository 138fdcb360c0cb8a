import Polyglot.Fault
import Polyglot.Number.Reading
import Polyglot.Value.Basic

/-!
TOML scalars: numbers, dates and times.
-/

namespace Polyglot.Toml

def isHex (c : Char) : Bool :=
  Text.isAsciiDigit c || ('a' ≤ c && c ≤ 'f') || ('A' ≤ c && c ≤ 'F')

def isOctal (c : Char) : Bool :=
  '0' ≤ c && c ≤ '7'

def isBinary (c : Char) : Bool :=
  c == '0' || c == '1'

def hexValue (c : Char) : Nat :=
  if Text.isAsciiDigit c then c.toNat - 48 else c.toLower.toNat - 87

def takeDigits (isDigit : Char → Bool) : List Char → List Char × List Char
  | '_' :: c :: cs =>
    if isDigit c then
      let (ds, rest) := takeDigits isDigit cs
      (c :: ds, rest)
    else ([], '_' :: c :: cs)
  | c :: cs =>
    if isDigit c then
      let (ds, rest) := takeDigits isDigit cs
      (c :: ds, rest)
    else ([], c :: cs)
  | [] => ([], [])

def takeNumeral? (isDigit : Char → Bool) (cs : List Char) : Option (List Char × List Char) :=
  if cs.head?.any isDigit then some (takeDigits isDigit cs) else none

def inBase (base : Nat) (ds : List Char) : Nat :=
  ds.foldl (fun n c => n * base + hexValue c) 0

def based? (base : Nat) (isDigit : Char → Bool) (cs : List Char) : Option (Value × List Char) :=
  (takeNumeral? isDigit cs).map fun (ds, rest) => (.int (inBase base ds), rest)

def takeFraction (cs : List Char) : List Char × List Char :=
  match cs with
  | '.' :: rest => (takeNumeral? Text.isAsciiDigit rest).getD ([], cs)
  | _ => ([], cs)

def takeExponent (cs : List Char) : Option Int × List Char :=
  match cs with
  | e :: rest =>
    if e == 'e' || e == 'E' then
      let (down, digits) := Number.takeSign rest
      match takeNumeral? Text.isAsciiDigit digits with
      | some (ds, rest) =>
        let n : Int := Text.ofDecimals ds
        (some (if down then -n else n), rest)
      | none => (none, cs)
    else (none, cs)
  | [] => (none, cs)

/--
A decimal integer or fraction. A whole part of more than one digit does not start with a zero.
-/
def decimal? (cs : List Char) : Option (Except DataError Value × List Char) :=
  let (negative, body) := Number.takeSign cs
  let whole := match body with
    | '0' :: rest => some (['0'], rest)
    | _ => takeNumeral? Text.isAsciiDigit body
  whole.map fun (ds, rest) =>
    let (part, rest) := takeFraction rest
    let (power, rest) := takeExponent rest
    if part.isEmpty && power.isNone then
      if ds.length > Number.digitLimit then (.error .tooManyDigits, rest)
      else
        let n : Int := Text.ofDecimals ds
        (.ok (.int (if negative then -n else n)), rest)
    else
      let f : Number.Fraction := ⟨negative, ds ++ part, power.getD 0 - part.length⟩
      (.ok (.float f.toBinary64), rest)

def number? (cs : List Char) : Option (Except DataError Value × List Char) :=
  let based : Option (Value × List Char) := match cs with
    | '0' :: 'x' :: rest => based? 16 isHex rest
    | '0' :: 'b' :: rest => based? 2 isBinary rest
    | '0' :: 'o' :: rest => based? 8 isOctal rest
    | _ => none
  match based with
  | some (v, rest) => some (.ok v, rest)
  | none => decimal? cs

def special? (cs : List Char) : Option (Value × List Char) :=
  let (negative, body) := Number.takeSign cs
  match body with
  | 'i' :: 'n' :: 'f' :: rest => some (.float (.infinity negative), rest)
  | 'n' :: 'a' :: 'n' :: rest => some (.float .nan, rest)
  | _ => none

def fixed? (n : Nat) (cs : List Char) : Option (Nat × List Char) :=
  let ds := cs.take n
  if ds.length == n && ds.all Text.isAsciiDigit then some (Text.ofDecimals ds, cs.drop n) else none

def literal? (c : Char) (cs : List Char) : Option (List Char) :=
  match cs with
  | d :: rest => if c == d then some rest else none
  | [] => none

def takeMicros (cs : List Char) : Nat × List Char :=
  match cs with
  | '.' :: rest =>
    let ds := rest.takeWhile Text.isAsciiDigit
    if ds.isEmpty then (0, cs)
    else
      let six := ds.take 6
      (Text.ofDecimals (six ++ List.replicate (6 - six.length) '0'), rest.drop ds.length)
  | _ => (0, cs)

def time? (cs : List Char) : Option (TimeOfDay × List Char) := do
  let (hour, cs) ← fixed? 2 cs
  let cs ← literal? ':' cs
  let (minute, cs) ← fixed? 2 cs
  let cs ← literal? ':' cs
  let (second, cs) ← fixed? 2 cs
  let (micro, cs) := takeMicros cs
  let t : TimeOfDay := ⟨hour, minute, second, micro⟩
  if t.isValid then some (t, cs) else none

def date? (cs : List Char) : Option (Date × List Char) := do
  let (year, cs) ← fixed? 4 cs
  let cs ← literal? '-' cs
  let (month, cs) ← fixed? 2 cs
  let cs ← literal? '-' cs
  let (day, cs) ← fixed? 2 cs
  if 1 ≤ month && month ≤ 12 && 1 ≤ day && day ≤ 31 then some (⟨year, month, day⟩, cs) else none

def takeOffset (cs : List Char) : Option Int × List Char :=
  match cs with
  | c :: rest =>
    if c == 'Z' || c == 'z' then (some 0, rest)
    else if c == '+' || c == '-' then
      let read : Option (Int × List Char) := do
        let (hours, rest) ← fixed? 2 rest
        let rest ← literal? ':' rest
        let (minutes, rest) ← fixed? 2 rest
        if hours < 24 && minutes < 60 then
          let ahead : Int := hours * 60 + minutes
          some (if c == '-' then -ahead else ahead, rest)
        else none
      match read with
      | some (ahead, rest) => (some ahead, rest)
      | none => (none, cs)
    else (none, cs)
  | [] => (none, cs)

def moment? (cs : List Char) : Option (Moment × List Char) := do
  let (d, rest) ← date? cs
  let full : Option (Moment × List Char) := match rest with
    | c :: more =>
      if c == 'T' || c == 't' || c == ' ' then
        (time? more).map fun (t, rest) =>
          let (ahead, rest) := takeOffset rest
          (.full d t ahead, rest)
      else none
    | [] => none
  some (full.getD (.date d, rest))

def isReal : Moment → Bool
  | .date d => d.isValid
  | .full d _ _ => d.isValid
  | .time _ => true

/--
A number, date or time at the front of a text. Dates come first, then times, then numbers.
-/
def scalar (cs : List Char) : Except DataError (Value × List Char) :=
  match moment? cs with
  | some (m, rest) => if isReal m then .ok (.moment m, rest) else .error .malformed
  | none =>
    match time? cs with
    | some (t, rest) => .ok (.moment (.time t), rest)
    | none =>
      match number? cs with
      | some (v, rest) => v.map fun v => (v, rest)
      | none =>
        match special? cs with
        | some found => .ok found
        | none => .error .malformed

end Polyglot.Toml
