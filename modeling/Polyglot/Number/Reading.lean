import Polyglot.Number.Binary64
import Polyglot.Text.Character

/-!
Reading decimal numbers from text.
-/

namespace Polyglot.Number

/--
A decimal fraction taken apart: its digits without the point, and the power of ten of the last one.
-/
structure Fraction where
  negative : Bool
  digits : List Char
  power : Int

def Fraction.toBinary64 (f : Fraction) : Binary64 :=
  Binary64.ofDecimal f.negative (Text.ofDecimals f.digits) f.power

def takeSign : List Char → Bool × List Char
  | '-' :: cs => (true, cs)
  | '+' :: cs => (false, cs)
  | cs => (false, cs)

/--
Splits a number with optional sign, point and exponent. Digits may be of any digit system; at least
one has to stand before the exponent, and an exponent needs digits of its own.
-/
def fraction? (cs : List Char) : Option Fraction :=
  let (negative, cs) := takeSign cs
  let whole := cs.takeWhile Text.isDecimal
  let rest := cs.dropWhile Text.isDecimal
  let (part, rest) := match rest with
    | '.' :: more => (more.takeWhile Text.isDecimal, more.dropWhile Text.isDecimal)
    | _ => ([], rest)
  if whole.isEmpty && part.isEmpty then none
  else
    let done (power : Int) : Option Fraction :=
      some ⟨negative, whole ++ part, power - part.length⟩
    match rest with
    | [] => done 0
    | e :: more =>
      if e == 'e' || e == 'E' then
        let (down, ds) := takeSign more
        if ds.isEmpty || !ds.all Text.isDecimal then none
        else
          let size : Int := Text.ofDecimals ds
          done (if down then -size else size)
      else none

/--
The floating-point number that a text spells, including the names of infinity and of no number.
-/
def float? (s : String) : Option Binary64 :=
  let (negative, word) := takeSign s.toList
  match (String.ofList word).toLower with
  | "nan" => some .nan
  | "inf" | "infinity" => some (.infinity negative)
  | _ => (fraction? s.toList).map Fraction.toBinary64

def digitLimit : Nat := 4300

end Polyglot.Number
