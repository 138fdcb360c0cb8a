import Polyglot.Fault
import Polyglot.Number.Reading
import Polyglot.Text.Search
import Polyglot.Value.Basic

/-!
What the texts of YAML scalars stand for.

The form of a plain text says which kind of value it is. A text that is only said to be of a kind may
turn out not to spell such a value.
-/

namespace Polyglot.Yaml

inductive Kind where
  | null
  | bool
  | int
  | float
  | moment
  | merge
  | default
  | text
  deriving DecidableEq

def isAllOf (p : Char → Bool) (cs : List Char) : Bool :=
  !cs.isEmpty && cs.all p

def isDigitOrScore (c : Char) : Bool :=
  Text.isAsciiDigit c || c == '_'

def isHexChar (c : Char) : Bool :=
  Text.isAsciiDigit c || ('a' ≤ c && c ≤ 'f') || ('A' ≤ c && c ≤ 'F') || c == '_'

def isSixtieth : List Char → Bool
  | [a] => Text.isAsciiDigit a
  | [a, b] => '0' ≤ a && a ≤ '5' && Text.isAsciiDigit b
  | _ => false

def startsNumber (first : Char → Bool) : List Char → Bool
  | [] => false
  | c :: cs => first c && cs.all isDigitOrScore

def isNonZero (c : Char) : Bool :=
  '1' ≤ c && c ≤ '9'

def looksInt (cs : List Char) : Bool :=
  let body := (Number.takeSign cs).2
  match body with
  | '0' :: 'b' :: ds => isAllOf (fun c => c == '0' || c == '1' || c == '_') ds
  | '0' :: 'x' :: ds => isAllOf isHexChar ds
  | '0' :: ds => ds.all fun c => ('0' ≤ c && c ≤ '7') || c == '_'
  | _ =>
    match Text.pieces ':' body with
    | [] => false
    | p :: ps => startsNumber isNonZero p && ps.all isSixtieth

def isExponent : List Char → Bool
  | [] => true
  | e :: s :: ds => (e == 'e' || e == 'E') && (s == '-' || s == '+') && isAllOf Text.isAsciiDigit ds
  | _ => false

def looksFloat (cs : List Char) : Bool :=
  let body := (Number.takeSign cs).2
  let whole := body.takeWhile fun c => c != '.'
  let part := (body.drop (whole.length + 1))
  let hasPoint := body.contains '.'
  match Text.pieces ':' whole with
  | [] => false
  | [w] =>
    hasPoint &&
      if w.isEmpty then
        ((part == "inf".toList || part == "Inf".toList || part == "INF".toList) ||
          (body.length == cs.length &&
            ((part == "nan".toList || part == "NaN".toList || part == "NAN".toList) ||
              (startsNumber Text.isAsciiDigit (part.takeWhile isDigitOrScore) &&
                isExponent (part.dropWhile isDigitOrScore)))))
      else startsNumber Text.isAsciiDigit w && isExponent (part.dropWhile isDigitOrScore)
  | w :: ps =>
    hasPoint && startsNumber Text.isAsciiDigit w && ps.all isSixtieth && part.all isDigitOrScore

def boolWords : List (String × Bool) :=
  [("yes", true), ("no", false), ("true", true), ("false", false), ("on", true), ("off", false)]

def isCased (word s : String) : Bool :=
  s == word || s == word.toUpper || s == word.capitalize

def takeNumber? (least most : Nat) (cs : List Char) : Option (Nat × List Char) :=
  let ds := (cs.takeWhile Text.isAsciiDigit).take most
  if ds.length < least then none else some (Text.ofDecimals ds, cs.drop ds.length)

def takeSign? (c : Char) : List Char → Option (List Char)
  | [] => none
  | d :: rest => if c == d then some rest else none

def takeFraction (cs : List Char) : Nat × List Char :=
  match cs with
  | '.' :: rest =>
    let ds := rest.takeWhile Text.isAsciiDigit
    let six := ds.take 6
    (Text.ofDecimals (six ++ List.replicate (6 - six.length) '0'), rest.drop ds.length)
  | _ => (0, cs)

def isBlankSign (c : Char) : Bool :=
  c == ' ' || c == '\t'

def zone? (cs : List Char) : Option (Option Int) :=
  match cs with
  | [] => some none
  | _ =>
    match cs.dropWhile isBlankSign with
    | ['Z'] => some (some 0)
    | s :: rest =>
      if s == '+' || s == '-' then do
        let (hours, rest) ← takeNumber? 1 2 rest
        let (minutes, rest) ← match rest with
          | ':' :: more => takeNumber? 2 2 more
          | _ => some (0, rest)
        let ahead : Int := hours * 60 + minutes
        if rest.isEmpty then some (some (if s == '-' then -ahead else ahead)) else none
      else none
    | [] => none

/--
A date alone, or one with a time, by the form of their text. The parts need not be in their bounds.
-/
def moment? (cs : List Char) : Option (Moment × Bool) := do
  let (year, rest) ← takeNumber? 4 4 cs
  let rest ← takeSign? '-' rest
  let (month, rest) ← takeNumber? 1 2 rest
  let rest ← takeSign? '-' rest
  let (day, rest) ← takeNumber? 1 2 rest
  let d : Date := ⟨year, month, day⟩
  match rest with
  | [] => return (.date d, cs.length == 10)
  | c :: more =>
    let rest ←
      if c == 'T' || c == 't' then some more
      else if isBlankSign c then some (more.dropWhile isBlankSign) else none
    let (hour, rest) ← takeNumber? 1 2 rest
    let rest ← takeSign? ':' rest
    let (minute, rest) ← takeNumber? 2 2 rest
    let rest ← takeSign? ':' rest
    let (second, rest) ← takeNumber? 2 2 rest
    let (micro, rest) := takeFraction rest
    return (.full d ⟨hour, minute, second, micro⟩ (← zone? rest), true)

def kindOf (s : String) : Kind :=
  let cs := s.toList
  if boolWords.any fun (w, _) => isCased w s then .bool
  else if looksFloat cs then .float
  else if looksInt cs then .int
  else if s == "<<" then .merge
  else if s == "" || s == "~" || isCased "null" s then .null
  else if (moment? cs).any (·.2) then .moment
  else if s == "=" then .default
  else .text

def fault {α : Type} (f : Fault) : Except DataError α :=
  .error (.evaluation f)

def digitIn? (base : Nat) (c : Char) : Option Nat :=
  let v := if Text.isAsciiDigit c then some (c.toNat - 48)
    else if 'a' ≤ c.toLower && c.toLower ≤ 'z' then some (c.toLower.toNat - 87) else none
  v.filter (· < base)

def inBase (base : Nat) (ds : List Char) : Except DataError Int :=
  if ds.isEmpty || !ds.all (fun c => (digitIn? base c).isSome) then fault .value
  else if base == 10 && ds.length > Number.digitLimit then fault .value
  else .ok (ds.foldl (fun n c => n * base + (digitIn? base c).getD 0) 0 : Nat)

def signed (s : String) : Bool × List Char :=
  Number.takeSign (s.toList.filter (· != '_'))

def intValue (s : String) : Except DataError Value := do
  let (negative, body) := signed s
  let n ← match body with
    | [] => fault .index
    | ['0'] => pure 0
    | '0' :: 'b' :: ds => inBase 2 ds
    | '0' :: 'x' :: ds => inBase 16 ds
    | '0' :: ds => inBase 8 ds
    | _ =>
      (Text.pieces ':' body).foldlM (fun (n : Int) p => do return n * 60 + (← inBase 10 p)) 0
  return .int (if negative then -n else n)

def floatValue (s : String) : Except DataError Value := do
  let (negative, body) := signed s
  let parse (cs : List Char) : Except DataError Binary64 :=
    match Number.float? (String.ofList cs) with
    | some x => .ok x
    | none => fault .value
  let word := (String.ofList body).toLower
  let x ←
    if body.isEmpty then fault .index
    else if word == ".inf" then pure (Binary64.infinity false)
    else if word == ".nan" then return .float .nan
    else match Text.pieces ':' body with
      | [p] => parse p
      | ps => do
        let xs ← ps.mapM parse
        let (sum, _) := xs.reverse.foldl
          (fun (sum, base) x => (sum.add (x.mul (Binary64.ofInt base)), base * 60))
          (Binary64.zero false, (1 : Int))
        pure sum
  return .float (if negative then x.neg else x)

def boolValue (s : String) : Except DataError Value :=
  match boolWords.lookup s.toLower with
  | some b => .ok (.bool b)
  | none => fault .key

def isReal : Moment → Bool
  | .date d => d.isValid
  | .time t => t.isValid
  | .full d t ahead => d.isValid && t.isValid && ahead.all (·.natAbs < 1440)

def momentValue (s : String) : Except DataError Value :=
  match (moment? s.toList).map (·.1) with
  | none => fault .attribute
  | some m => if isReal m then .ok (.moment m) else fault .value

/--
The value of a text of a kind. The signs for merging and for a default stand for nothing else.
-/
def Kind.value (s : String) : Kind → Except DataError Value
  | .null => .ok .null
  | .bool => boolValue s
  | .int => intValue s
  | .float => floatValue s
  | .moment => momentValue s
  | .merge | .default => .error .malformed
  | .text => .ok (.str s)

end Polyglot.Yaml
