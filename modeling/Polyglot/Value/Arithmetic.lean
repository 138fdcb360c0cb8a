import Polyglot.Fault
import Polyglot.Text.Search
import Polyglot.Value.Text

/-!
Operations on values: arithmetic, order and membership.

Truth values count as zero and one. Integers are exact; where a floating-point number takes part, or
where integers are divided, the result is a floating-point number.
-/

namespace Polyglot

namespace Value

inductive Operand where
  | int (n : Int)
  | float (x : Binary64)

def operand? : Value → Option Operand
  | bool b => some (.int (if b then 1 else 0))
  | int n => some (.int n)
  | float x => some (.float x)
  | _ => none

/--
An integer as a floating-point number; not all are small enough.
-/
def toFloat (n : Int) : Except Fault Binary64 :=
  let x := Binary64.ofInt n
  if x.isFinite then .ok x else .error .overflow

def floatMod (x y : Binary64) : Binary64 :=
  if x.isNaN || y.isNaN || x.isInfinite then .nan
  else if y.isInfinite then
    if x.isZero || x.isNegative == y.isNegative then x else y
  else
    let (n, d) := x.ratio
    let (m, e) := y.ratio
    let r := Binary64.ofRatio x.isNegative (n * e % (m * d)) (d * e)
    if r.isZero then .zero y.isNegative
    else if r.isNegative == y.isNegative then r else r.add y

def floatFloorDiv (x y : Binary64) : Binary64 :=
  let r := floatMod x y
  let q := (x.sub r).div y
  if q.isZero then .zero (x.isNegative != y.isNegative)
  else
    let f := q.floor
    if (Binary64.ofRatio false 1 2).less (q.sub f) then f.add (.ofInt 1) else f

def floatPow (x y : Binary64) : Except Fault Value :=
  if x.isZero && y.isNegative && !y.isNaN && !y.isZero then .error .zeroDivision
  else if x.isNegative && x.isFinite && !x.isZero && y.isFinite && !y.isIntegral then
    .ok (.object "complex")
  else
    let z := x.pow y
    if z.isInfinite && x.isFinite && y.isFinite then .error .overflow else .ok (.float z)

def floatOp (x y : Binary64) : Op → Except Fault Value
  | .add => .ok (.float (x.add y))
  | .sub => .ok (.float (x.sub y))
  | .mul => .ok (.float (x.mul y))
  | .div => if y.isZero then .error .zeroDivision else .ok (.float (x.div y))
  | .floorDiv => if y.isZero then .error .zeroDivision else .ok (.float (floatFloorDiv x y))
  | .mod => if y.isZero then .error .zeroDivision else .ok (.float (floatMod x y))
  | .pow => floatPow x y

/--
Integer operations. Division rounds the exact quotient; a negative power is a floating-point number.
-/
def intOp (a b : Int) : Op → Except Fault Value
  | .add => .ok (.int (a + b))
  | .sub => .ok (.int (a - b))
  | .mul => .ok (.int (a * b))
  | .div =>
    if b = 0 then .error .zeroDivision
    else
      let q := Binary64.ofRatio (decide (a < 0) != decide (b < 0)) a.natAbs b.natAbs
      if q.isFinite then .ok (.float (if a = 0 then .zero false else q)) else .error .overflow
  | .floorDiv => if b = 0 then .error .zeroDivision else .ok (.int (a.fdiv b))
  | .mod => if b = 0 then .error .zeroDivision else .ok (.int (a.fmod b))
  | .pow =>
    if 0 ≤ b then .ok (.int (Int.pow a b.toNat))
    else do floatPow (← toFloat a) (← toFloat b)

def numberOp (op : Op) : Operand → Operand → Except Fault Value
  | .int a, .int b => intOp a b op
  | .int a, .float y => do floatOp (← toFloat a) y op
  | .float x, .int b => do floatOp x (← toFloat b) op
  | .float x, .float y => floatOp x y op

/--
A sequence repeated; a negative count is none.
-/
def repeated {α : Type} (n : Int) (xs : List α) : List α :=
  (List.replicate n.toNat xs).flatten

def whole? : Value → Option Int
  | bool b => some (if b then 1 else 0)
  | int n => some n
  | _ => none

/--
The result of an operation. Sums of texts and lists join them, and products repeat them.
-/
def apply (op : Op) (a b : Value) : Except Fault Value :=
  match a.operand?, b.operand? with
  | some x, some y => numberOp op x y
  | _, _ =>
    match op with
    | .add =>
      match a, b with
      | str s, str t => .ok (.str (s ++ t))
      | bytes s, bytes t => .ok (.bytes (s ++ t))
      | list xs, list ys => .ok (.list (xs ++ ys))
      | tuple xs, tuple ys => .ok (.tuple (xs ++ ys))
      | _, _ => .error .type
    | .mul =>
      match repeat? a b, repeat? b a with
      | some v, _ => .ok v
      | none, some v => .ok v
      | none, none => .error .type
    | .sub =>
      match a, b with
      | set xs, set ys => .ok (.set (xs.filter fun x => !ys.any (same x)))
      | _, _ => .error .type
    | _ => .error .type
where
  repeat? (a b : Value) : Option Value :=
    b.whole?.bind fun n =>
      match a with
      | str s => some (.str (String.ofList (repeated n s.toList)))
      | bytes s => some (.bytes (repeated n s))
      | list xs => some (.list (repeated n xs))
      | tuple xs => some (.tuple (repeated n xs))
      | _ => none

def negate : Value → Except Fault Value
  | float x => .ok (.float x.neg)
  | v =>
    match v.whole? with
    | some n => .ok (.int (-n))
    | none => .error .type

def positive : Value → Except Fault Value
  | float x => .ok (.float x)
  | v =>
    match v.whole? with
    | some n => .ok (.int n)
    | none => .error .type

def numberLess (a b : Value) : Bool :=
  match a, b with
  | float x, float y => x.less y
  | _, _ =>
    match a.ratio?, b.ratio? with
    | some (n, d), some (m, e) => n * e < m * d
    | none, some _ => isLow a
    | some _, none => isHigh b
    | none, none => false
where
  isLow : Value → Bool
    | float x => x.isInfinite && x.isNegative
    | _ => false
  isHigh : Value → Bool
    | float x => x.isInfinite && !x.isNegative
    | _ => false

/--
Whether one value comes before another. Only values of one kind are in order.
-/
def less : Value → Value → Except Fault Bool
  | str s, str t => .ok (s < t)
  | bytes s, bytes t => .ok (s.map UInt8.toNat < t.map UInt8.toNat)
  | list xs, list ys => all xs ys
  | tuple xs, tuple ys => all xs ys
  | a, b =>
    match a.operand?, b.operand? with
    | some _, some _ => .ok (numberLess a b)
    | _, _ => .error .type
where
  all : List Value → List Value → Except Fault Bool
    | _, [] => .ok false
    | [], _ :: _ => .ok true
    | x :: xs, y :: ys => if same x y then all xs ys else less x y

def isIn (x : Value) : Value → Except Fault Bool
  | str t =>
    match x with
    | str s => .ok (Text.contains s.toList t.toList)
    | _ => .error .type
  | list ys => .ok (ys.any (same x))
  | tuple ys => .ok (ys.any (same x))
  | set ys => if x.isHashable then .ok (ys.any (same x)) else .error .type
  | map es => if x.isHashable then .ok (es.any fun e => same x e.1) else .error .type
  | _ => .error .type

def compare (c : Comparison) (a b : Value) : Except Fault Bool :=
  match c with
  | .eq => .ok (same a b)
  | .ne => .ok (!same a b)
  | .lt => less a b
  | .gt => less b a
  | .le => orSame a b
  | .ge => orSame b a
  | .mem => isIn a b
  | .notMem => (isIn a b).map (!·)
where
  orSame (a b : Value) : Except Fault Bool :=
    (less a b).map (· || same a b)

def elements : Value → Except Fault (List Value)
  | str s => .ok (s.toList.map fun c => .str (String.singleton c))
  | bytes bs => .ok (bs.map fun b => .int b.toNat)
  | list xs => .ok xs
  | tuple xs => .ok xs
  | set xs => .ok xs
  | map es => .ok (es.map (·.1))
  | _ => .error .type

/--
The element at a place; negative places count from the end.
-/
def nth {α : Type} (xs : List α) (n : Int) : Except Fault α :=
  let i := if n < 0 then n + xs.length else n
  if i < 0 then .error .index
  else match xs[i.toNat]? with
    | some x => .ok x
    | none => .error .index

def item (v index : Value) : Except Fault Value :=
  match v with
  | map es =>
    if index.isHashable then
      match es.find? fun e => same e.1 index with
      | some e => .ok e.2
      | none => .error .key
    else .error .type
  | list xs => byPlace xs
  | tuple xs => byPlace xs
  | str s => byPlace (s.toList.map fun c => .str (String.singleton c))
  | bytes bs => byPlace (bs.map fun b => .int b.toNat)
  | _ => .error .type
where
  byPlace (xs : List Value) : Except Fault Value :=
    match index.whole? with
    | some n => nth xs n
    | none => .error .type

/--
Where a slice starts and stops. Places outside the sequence are moved to its ends.
-/
def sliceBounds (size : Nat) (start stop : Option Int) (step : Int) : Int × Int :=
  let n : Int := size
  let low : Int := if step < 0 then -1 else 0
  let high : Int := if step < 0 then n - 1 else n
  let place (i : Int) : Int := max low (min high (if i < 0 then i + n else i))
  let (first, last) := if step < 0 then (high, low) else (low, high)
  (start.elim first place, stop.elim last place)

def sliceOf {α : Type} (xs : List α) (start stop : Option Int) (step : Int) : List α :=
  let (first, last) := sliceBounds xs.length start stop step
  let count := if step < 0 then (first - last + (-step) - 1) / -step
    else if step = 0 then 0 else (last - first + step - 1) / step
  (List.range count.toNat).filterMap fun (k : Nat) => xs[(first + (k : Int) * step).toNat]?

def bound? : Value → Except Fault (Option Int)
  | null => .ok none
  | v =>
    match v.whole? with
    | some n => .ok (some n)
    | none => .error .type

def slice (v start stop step : Value) : Except Fault Value := do
  let first ← bound? start
  let last ← bound? stop
  let by_ := (← bound? step).getD 1
  if by_ = 0 then .error .value
  else match v with
    | str s => .ok (.str (String.ofList (sliceOf s.toList first last by_)))
    | bytes bs => .ok (.bytes (sliceOf bs first last by_))
    | list xs => .ok (.list (sliceOf xs first last by_))
    | tuple xs => .ok (.tuple (sliceOf xs first last by_))
    | _ => .error .type

def size? : Value → Option Nat
  | str s => some s.length
  | bytes bs => some bs.length
  | list xs => some xs.length
  | tuple xs => some xs.length
  | set xs => some xs.length
  | map es => some es.length
  | _ => none

end Value

end Polyglot
