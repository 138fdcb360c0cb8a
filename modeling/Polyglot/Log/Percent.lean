import Polyglot.Log.Setup
import Polyglot.Number.Reading
import Polyglot.Number.Writing
import Polyglot.Text.Search

/-!
Messages with marked places: a percent sign, flags, a width, a precision and a letter that says how
the value put in the place is written.
-/

namespace Polyglot.Log

namespace Percent

/--
A width or a precision: a number, or a star that takes it from the values.
-/
inductive Extent where
  | given (n : Nat)
  | taken
  deriving DecidableEq

structure Place where
  key : Option String := none
  flags : List Char := []
  width : Extent := .given 0
  precision : Option Extent := none
  letter : Char := 's'

def isFlag (c : Char) : Bool :=
  c == '-' || c == '+' || c == ' ' || c == '#' || c == '0'

def takeExtent : List Char → Extent × List Char
  | '*' :: rest => (.taken, rest)
  | cs =>
    (.given (Text.ofDecimals (cs.takeWhile Text.isAsciiDigit)), cs.dropWhile Text.isAsciiDigit)

/--
A key up to the bracket that closes it; `depth` counts brackets inside.
-/
def closeKey? : Nat → List Char → Option (List Char × List Char)
  | _, [] => none
  | 0, ')' :: rest => some ([], rest)
  | depth, c :: cs => do
    let depth := if c == '(' then depth + 1 else if c == ')' then depth - 1 else depth
    let (key, rest) ← closeKey? depth cs
    return (c :: key, rest)

def takeKey? (cs : List Char) : Option (Option String × List Char) :=
  match cs with
  | '(' :: rest => (closeKey? 0 rest).map fun (key, rest) => (some (String.ofList key), rest)
  | _ => some (none, cs)

def takePlace? (cs : List Char) : Option (Place × List Char) := do
  let (key, cs) ← takeKey? cs
  let flags := cs.takeWhile isFlag
  let (width, cs) := takeExtent (cs.dropWhile isFlag)
  let (precision, cs) := match cs with
    | '.' :: rest =>
      let (n, rest) := takeExtent rest
      (some n, rest)
    | _ => (none, cs)
  let cs := match cs with
    | c :: rest => if c == 'h' || c == 'l' || c == 'L' then rest else c :: rest
    | [] => []
  match cs with
  | letter :: rest => return ({ key, flags, width, precision, letter }, rest)
  | [] => none

structure Form where
  flags : List Char
  width : Nat
  precision : Option Nat
  letter : Char

def Form.has (f : Form) (flag : Char) : Bool :=
  f.flags.contains flag

/--
The sign of a number and a mark of its base, which come before zeros that fill the width.
-/
def Form.pad (f : Form) (start body : List Char) (numeric : Bool) : List Char :=
  let missing := f.width - (start.length + body.length)
  if f.has '-' then start ++ body ++ List.replicate missing ' '
  else if numeric && f.has '0' then start ++ List.replicate missing '0' ++ body
  else List.replicate missing ' ' ++ start ++ body

def Form.sign (f : Form) (negative : Bool) : List Char :=
  if negative then ['-'] else if f.has '+' then ['+'] else if f.has ' ' then [' '] else []

def digitsIn (base : Nat) : Nat → Nat → List Char
  | 0, _ => []
  | fuel + 1, n => if n < base then [Text.hexDigit n]
    else digitsIn base fuel (n / base) ++ [Text.hexDigit (n % base)]

def Form.integer (f : Form) (base : Nat) (n : Int) : List Char :=
  let digits := digitsIn base (n.natAbs + 1) n.natAbs
  let digits := if f.letter == 'X' then digits.map Char.toUpper else digits
  let mark := if f.has '#' && base ≠ 10 then ['0', f.letter] else []
  let zeros := List.replicate ((f.precision.getD 0) - digits.length) '0'
  f.pad (f.sign (n < 0) ++ mark) (zeros ++ digits) true

def Form.float (f : Form) (x : Binary64) : List Char :=
  let places := f.precision.getD 6
  let point := f.has '#'
  let (n, d) := x.ratio
  let body :=
    if x.isNaN then ['n', 'a', 'n']
    else if x.isInfinite then ['i', 'n', 'f']
    else match f.letter.toLower with
      | 'e' => Binary64.scientificDigits places n d point 'e'
      | 'g' => Binary64.generalDigits places n d point 'e'
      | _ => Binary64.fixedDigits places n d point
  let body := if f.letter.isUpper then body.map Char.toUpper else body
  f.pad (f.sign (x.isNegative && !x.isNaN)) body true

def whole? : Value → Option Int
  | .int n => some n
  | .bool b => some (if b then 1 else 0)
  | _ => none

def cutWhole? : Value → Option Int
  | .float x => if x.isFinite then some x.truncate else none
  | v => whole? v

def float? : Value → Option Binary64
  | .float x => some x
  | v => do
    let x := Binary64.ofInt (← whole? v)
    if x.isInfinite then none else some x

def Form.write? (f : Form) (v : Value) : Option (List Char) :=
  let text (s : String) : List Char :=
    let cs := match f.precision with
      | some n => s.toList.take n
      | none => s.toList
    f.pad [] cs false
  match f.letter with
  | 's' => some (text v.plain)
  | 'r' => some (text v.spelled)
  | 'a' => some (text (escapeOutside .ascii v.spelled))
  | 'd' | 'i' | 'u' => (cutWhole? v).map (f.integer 10)
  | 'x' | 'X' => (whole? v).map (f.integer 16)
  | 'o' => (whole? v).map (f.integer 8)
  | 'e' | 'E' | 'f' | 'F' | 'g' | 'G' => (float? v).map f.float
  | 'c' =>
    match v with
    | .str s => if s.length = 1 then some (f.pad [] s.toList false) else none
    | v => do
      let n ← whole? v
      if 0 ≤ n ∧ n < 0x110000 then some (f.pad [] [Char.ofNat n.toNat] false) else none
  | _ => none

/--
The values still to be put in. A mapping that holds all values by name can also be put in as such,
once, as long as nothing has been taken out of it.
-/
structure Supply where
  named : Option Fields
  rest : List Value

def Supply.next? (s : Supply) : Option (Value × Supply) :=
  match s.rest with
  | v :: rest => some (v, { s with rest })
  | [] => none

def Supply.extent? (s : Supply) : Extent → Option (Int × Supply)
  | .given n => some (n, s)
  | .taken => do
    let (v, s) ← s.next?
    return (← whole? v, s)

/--
The form of a place, and the value to be written in it. A width below zero aligns to the left.
-/
def Place.fill? (p : Place) (s : Supply) : Option (List Char × Supply) := do
  let (found, s) ← match p.key with
    | some key => do
      let v ← Value.find? (← s.named) key
      pure (some v, { s with rest := [v] })
    | none => pure (none, s)
  let (width, s) ← s.extent? p.width
  let (precision, s) ← match p.precision with
    | some n => do
      let (n, s) ← s.extent? n
      pure (some n.toNat, s)
    | none => pure (none, s)
  let flags := if width < 0 then '-' :: p.flags else p.flags
  let form : Form := ⟨flags, width.natAbs, precision, p.letter⟩
  if p.letter == '%' then return (['%'], s)
  else
    let (v, s) ← s.next?
    return (← form.write? (found.getD v), s)

end Percent

/--
A message with values put in its places, in order or by name; nothing where they do not fit.
-/
def fill? (message : String) (values : List Value) : Option String :=
  let named := match values with
    | [.map es] => if es.isEmpty then none else some es
    | _ => none
  if values.isEmpty then some message
  else (go message.toList.length message.toList ⟨named, values⟩).map String.ofList
where
  go : Nat → List Char → Percent.Supply → Option (List Char)
    | _, [], s => if s.rest.isEmpty || s.named.isSome then some [] else none
    | 0, _, _ => none
    | fuel + 1, '%' :: cs, s => do
      let (p, rest) ← Percent.takePlace? cs
      let (text, s) ← p.fill? s
      return text ++ (← go fuel rest s)
    | fuel + 1, c :: cs, s => do return c :: (← go fuel cs s)

end Polyglot.Log
