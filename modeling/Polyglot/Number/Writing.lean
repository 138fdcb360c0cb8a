import Polyglot.Number.Binary64
import Polyglot.Text.Quoted

/-!
Decimal texts of floating-point numbers: the shortest one, with the fewest digits that read back as the same
number and, of those, the nearest; and texts with a given number of digits. Of two such texts that lie equally
near the one with an even last digit is taken, and signs are left to the caller.
-/

namespace Polyglot.Binary64

/--
Decimal digits of a number with the power of ten of the first one.
-/
structure Decimal where
  digits : List Char
  power : Int

def digitsOf (n : Nat) : List Char :=
  (toString n).toList

def leadingPower (n d : Nat) : Int :=
  if d ≤ n then ((digitsOf (n / d)).length : Int) - 1
  else -(go (1200 : Nat) 1 n)
where
  go : Nat → Int → Nat → Int
    | 0, k, _ => k
    | fuel + 1, k, n => if d ≤ n * 10 then k else go fuel (k + 1) (n * 10)

/--
The two decimals with a given number of digits that lie next to a quotient, with the nearer first.
-/
def neighbours (n d : Nat) (power : Int) (count : Nat) : List Nat :=
  let shift : Int := (count : Int) - 1 - power
  let (a, b) :=
    if shift < 0 then (n, d * Nat.pow 10 (-shift).toNat) else (n * Nat.pow 10 shift.toNat, d)
  let q := a / b
  let r := a % b
  if 2 * r < b || (2 * r == b && q % 2 == 0) then [q, q + 1] else [q + 1, q]

def shortest (x : Binary64) : Decimal :=
  let (n, d) := x.ratio
  let power := leadingPower n d
  go n d power 16 1
where
  go (n d : Nat) (power : Int) : Nat → Nat → Decimal
    | 0, count => decimal ((neighbours n d power count).headD 0) (power - count + 1)
    | fuel + 1, count =>
      let low := power - count + 1
      match (neighbours n d power count).find? fun m => ofDecimal x.isNegative m low == x with
      | some m => decimal m low
      | none => go n d power fuel (count + 1)
  decimal (m : Nat) (low : Int) : Decimal :=
    let ds := digitsOf m
    let kept := (ds.reverse.dropWhile (· == '0')).reverse
    ⟨kept, low + ds.length - 1⟩

/--
How numbers are written: positionally when the first digit stands for a power of ten from `-4` to
`15`, otherwise with an exponent of at least two digits.
-/
def text (x : Binary64) : String :=
  if x.isNaN then "nan"
  else
    let sign := if x.isNegative then "-" else ""
    if x.isInfinite then sign ++ "inf"
    else if x.isZero then sign ++ "0.0"
    else
      let ⟨ds, k⟩ := x.shortest
      sign ++ String.ofList (if -4 ≤ k ∧ k < 16 then positional ds k else scientific ds k)
where
  positional (ds : List Char) (k : Int) : List Char :=
    if k < 0 then '0' :: '.' :: List.replicate ((-k).toNat - 1) '0' ++ ds
    else
      let whole := k.toNat + 1
      if ds.length ≤ whole then ds ++ List.replicate (whole - ds.length) '0' ++ ['.', '0']
      else ds.take whole ++ '.' :: ds.drop whole
  scientific (ds : List Char) (k : Int) : List Char :=
    let mantissa := match ds with
      | [] => []
      | [d] => [d]
      | d :: rest => d :: '.' :: rest
    let size := digitsOf k.natAbs
    mantissa ++ 'e' :: (if k < 0 then '-' else '+') ::
      (if size.length < 2 then '0' :: size else size)

def fixedDigits (places n d : Nat) (point : Bool) : List Char :=
  let scaled := n * Nat.pow 10 places
  let q := scaled / d
  let r := scaled % d
  let q := if 2 * r > d || (2 * r == d && q % 2 == 1) then q + 1 else q
  let ds := digitsOf q
  let ds := List.replicate (places + 1 - ds.length) '0' ++ ds
  let whole := ds.length - places
  ds.take whole ++ (if point || 0 < places then ['.'] else []) ++ ds.drop whole

def leadingDigits (count n d : Nat) : List Char × Int :=
  if n = 0 then (List.replicate count '0', 0)
  else
    let k := leadingPower n d
    let ds := digitsOf ((neighbours n d k count).headD 0)
    if count < ds.length then (ds.take count, k + 1) else (ds, k)

def exponentText (mark : Char) (k : Int) : List Char :=
  let size := digitsOf k.natAbs
  mark :: (if k < 0 then '-' else '+') :: (if size.length < 2 then '0' :: size else size)

def scientificDigits (places n d : Nat) (point : Bool) (mark : Char) : List Char :=
  let (ds, k) := leadingDigits (places + 1) n d
  ds.take 1 ++ (if point || 0 < places then ['.'] else []) ++ ds.drop 1 ++ exponentText mark k

def trimZeros (cs : List Char) : List Char :=
  if cs.contains '.' then
    let kept := cs.reverse.dropWhile (· == '0')
    (if kept.head? == some '.' then kept.drop 1 else kept).reverse
  else cs

/--
A number of significant digits, positional unless the number is very small or has more digits than
that in front of its point. Zeros at the end go unless the point has to stay.
-/
def generalDigits (count n d : Nat) (point : Bool) (mark : Char) : List Char :=
  let count := max count 1
  let (ds, k) := leadingDigits count n d
  let trim (cs : List Char) : List Char := if point then cs else trimZeros cs
  if -4 ≤ k ∧ k < count then
    trim (fixedDigits ((count : Int) - 1 - k).toNat n d point)
  else
    trim (ds.take 1 ++ (if point || 1 < count then ['.'] else []) ++ ds.drop 1) ++
      exponentText mark k

end Polyglot.Binary64
