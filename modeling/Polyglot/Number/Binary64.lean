/-!
Floating-point numbers of sixty-four bits, with exact conversion from and to decimal numbers.

A finite number is `significand * 2 ^ exponent` up to its sign. Reading a decimal takes the nearest
number, the even one of two equally near. Everything here is arithmetic on natural numbers; only
sums, products and the like use the machine's own operations.
-/

namespace Polyglot

structure Binary64 where
  bits : UInt64
  deriving DecidableEq

namespace Binary64

def isNegative (x : Binary64) : Bool :=
  x.bits.toNat ≥ 1 <<< 63

def exponentField (x : Binary64) : Nat :=
  (x.bits.toNat >>> 52) % 2048

def fraction (x : Binary64) : Nat :=
  x.bits.toNat % (1 <<< 52)

def isFinite (x : Binary64) : Bool :=
  x.exponentField < 2047

def isNaN (x : Binary64) : Bool :=
  x.exponentField == 2047 && x.fraction != 0

def isInfinite (x : Binary64) : Bool :=
  x.exponentField == 2047 && x.fraction == 0

def isZero (x : Binary64) : Bool :=
  x.exponentField == 0 && x.fraction == 0

def significand (x : Binary64) : Nat :=
  if x.exponentField = 0 then x.fraction else (1 <<< 52) + x.fraction

def exponent (x : Binary64) : Int :=
  if x.exponentField = 0 then -1074 else (x.exponentField : Int) - 1075

def signed (negative : Bool) (magnitude : Nat) : Binary64 :=
  ⟨UInt64.ofNat (magnitude + if negative then 1 <<< 63 else 0)⟩

def infinity (negative : Bool) : Binary64 :=
  signed negative (2047 <<< 52)

def nan : Binary64 :=
  signed false ((2047 <<< 52) + (1 <<< 51))

def zero (negative : Bool) : Binary64 :=
  signed negative 0

def roundDiv (n d : Nat) : Nat :=
  let q := n / d
  let r := n % d
  if 2 * r < d then q else if d < 2 * r then q + 1 else q + q % 2

def ofRatio (negative : Bool) (n d : Nat) : Binary64 :=
  if n = 0 ∨ d = 0 then zero negative
  else
    let scale (q : Int) : Nat × Nat := if q < 0 then (n <<< (-q).toNat, d) else (n, d <<< q.toNat)
    let guess : Int := (n.log2 : Int) - d.log2 - 52
    let (a, b) := scale guess
    let q := max (-1074) (if a / b < 1 <<< 52 then guess - 1 else guess)
    let (a, b) := scale q
    let m := roundDiv a b
    let (m, q) := if m = 1 <<< 53 then (1 <<< 52, q + 1) else (m, q)
    if q > 971 then infinity negative
    else if m < 1 <<< 52 then signed negative m
    else signed negative (((q + 1075).toNat <<< 52) + (m - (1 <<< 52)))

def ofDecimal (negative : Bool) (digits : Nat) (power : Int) : Binary64 :=
  if digits = 0 then zero negative
  else
    let size : Int := power + (digits.log2 : Int) / 4
    if power > 400 then infinity negative
    else if size + (digits.log2 : Int) < -500 then zero negative
    else if power < 0 then ofRatio negative digits (Nat.pow 10 (-power).toNat)
    else ofRatio negative (digits * Nat.pow 10 power.toNat) 1

def ofInt (n : Int) : Binary64 :=
  ofRatio (n < 0) n.natAbs 1

def ratio (x : Binary64) : Nat × Nat :=
  if x.exponent < 0 then (x.significand, 1 <<< (-x.exponent).toNat)
  else (x.significand <<< x.exponent.toNat, 1)

def truncate (x : Binary64) : Int :=
  let (n, d) := x.ratio
  if x.isNegative then -(n / d : Nat) else (n / d : Nat)

def isIntegral (x : Binary64) : Bool :=
  x.isFinite && x.ratio.1 % x.ratio.2 == 0

def toFloat (x : Binary64) : Float :=
  Float.ofBits x.bits

def ofFloat (x : Float) : Binary64 :=
  if x.isNaN then nan else ⟨x.toBits⟩

def add (x y : Binary64) : Binary64 := ofFloat (x.toFloat + y.toFloat)
def sub (x y : Binary64) : Binary64 := ofFloat (x.toFloat - y.toFloat)
def mul (x y : Binary64) : Binary64 := ofFloat (x.toFloat * y.toFloat)
def div (x y : Binary64) : Binary64 := ofFloat (x.toFloat / y.toFloat)
def pow (x y : Binary64) : Binary64 := ofFloat (x.toFloat.pow y.toFloat)
def floor (x : Binary64) : Binary64 := ofFloat x.toFloat.floor
def neg (x : Binary64) : Binary64 := ofFloat (-x.toFloat)

/--
Equality of numbers: the two zeros are equal and nothing equals a number that is none.
-/
def same (x y : Binary64) : Bool :=
  !x.isNaN && !y.isNaN && (x.bits == y.bits || (x.isZero && y.isZero))

def less (x y : Binary64) : Bool :=
  x.toFloat < y.toFloat

end Binary64

end Polyglot
