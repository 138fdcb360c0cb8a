import Polyglot.Json.Writer
import Polyglot.Number.Reading
import Polyglot.Template.Datum
import Polyglot.Text.Quoted

/-!
The filters and tests of templates.
-/

namespace Polyglot.Template

structure Given where
  args : List Datum := []
  named : List (String × Datum) := []

/--
The arguments in the order of the parameters. There must not be more of them than parameters.
-/
def Given.bind (g : Given) (params : List String) : Except Error (List (Option Datum)) :=
  let rest := params.drop g.args.length
  if g.args.length > params.length || !g.named.all (fun e => rest.contains e.1) then
    Datum.fault .type
  else .ok (g.args.map some ++ rest.map fun p => g.named.lookup p)

def argument (xs : List (Option Datum)) (n : Nat) (otherwise : Datum) : Datum :=
  ((xs[n]?).getD none).getD otherwise

def wholeOf (d : Datum) : Except Error Int :=
  match d.toValue.whole? with
  | some n => .ok n
  | none => Datum.fault .type

def readInt? (base : Nat) (s : String) : Option Int :=
  let (negative, ds) := Number.takeSign (Text.trim s.toList)
  let digits := ds.filter (· != '_')
  let isDigit (c : Char) : Bool := (Text.hexDigit? c).any (· < base)
  if digits.isEmpty || !digits.all isDigit then none
  else
    let n : Int := digits.foldl (fun k c => k * base + (Text.hexDigit? c).getD 0) (0 : Nat)
    some (if negative then -n else n)

def readFloat? (s : String) : Option Binary64 :=
  Number.float? (Text.trimmed s)

def truncated? (x : Binary64) : Option Int :=
  if x.isFinite then some x.truncate else none

def toInt? (base : Nat) : Value → Option Int
  | .str s => (readInt? base s).or ((readFloat? s).bind truncated?)
  | .float x => truncated? x
  | v => v.whole?

def toFloat? : Value → Option Binary64
  | .str s => readFloat? s
  | .float x => some x
  | v => v.whole?.map Binary64.ofInt

def roundTo (x : Binary64) (places : Int) : Binary64 :=
  if !x.isFinite then x
  else
    let (n, d) := x.ratio
    let up := Nat.pow 10 places.toNat
    let down := Nat.pow 10 (-places).toNat
    let m := Binary64.roundDiv (n * up) (d * down)
    if m = 0 then .zero x.isNegative else Binary64.ofRatio x.isNegative (m * down) up

def foldCase : Value → Value
  | .str s => .str (Text.lower s)
  | v => v

def insertSorted (before : Value → Value → Except Fault Bool) (x : Value) :
    List Value → Except Fault (List Value)
  | [] => .ok [x]
  | y :: ys => do if ← before x y then return x :: y :: ys else return y :: (← insertSorted before x ys)

def sortValues (key : Value → Value) (descending : Bool) (xs : List Value) :
    Except Fault (List Value) :=
  let before (a b : Value) : Except Fault Bool :=
    if descending then (key b).less (key a) else (key a).less (key b)
  xs.foldlM (fun sorted x => insertSorted before x sorted) []

def extreme (before : Value → Value → Except Fault Bool) (xs : List Value) : Except Error Datum :=
  match xs with
  | [] => .ok .undefined
  | x :: xs => do
    let v ← Datum.ofFault (xs.foldlM (fun best y => do
      return if ← before (foldCase y) (foldCase best) then y else best) x)
    return .value v

def markupJson (v : Value) : Except Error Datum :=
  match Json.write? Json.spaced 0 v with
  | some s =>
    let safe (c : Char) : List Char :=
      if c == '<' || c == '>' || c == '&' || c == '\'' || 127 ≤ c.toNat then
        '\\' :: 'u' :: Text.hexDigits 4 c.toNat
      else [c]
    .ok (.markup (String.ofList (s.toList.flatMap safe)))
  | none => Datum.fault .type

/--
A filter: the names of its parameters, and what it makes of a datum. It is told whether text is
escaped.
-/
structure Filter where
  params : List String
  run : Bool → Datum → List (Option Datum) → Except Error Datum

def Filter.ofText (f : String → String) : Filter :=
  ⟨[], fun _ d _ => .ok (d.mapText f)⟩

def Filter.plain (f : Datum → Except Error Datum) : Filter :=
  ⟨[], fun _ d _ => f d⟩

def trimChars (chars cs : List Char) : List Char :=
  let skip := List.dropWhile (chars.contains ·)
  (skip (skip cs).reverse).reverse

def listOf (d : Datum) : Except Error Datum := do
  return .value (.list (← d.elements))

def replaceFilter : Filter :=
  ⟨["old", "new", "count"], fun escape d xs => do
    let count := (argument xs 2 .null).toValue.whole?.bind fun n =>
      if n < 0 then none else some n.toNat
    let run (s old new : String) : String :=
      String.ofList (replaceText count old.toList new.toList s.toList)
    match (xs[0]?).join, (xs[1]?).join with
    | some old, some new =>
      if !escape then return .str (run d.text old.text new.text)
      else if d.isMarkup then return .markup (run d.text old.escaped new.escaped)
      else if old.isMarkup || new.isMarkup then
        return .markup (run d.escaped old.escaped new.escaped)
      else return .str (run d.text old.text new.text)
    | _, _ => Datum.fault .type⟩

def roundFilter : Filter :=
  ⟨["precision", "method"], fun _ d xs => do
    let places ← wholeOf (argument xs 0 (.int 0))
    let method := (argument xs 1 (.str "common")).text
    match d.toValue, method with
    | .float x, "common" => return .value (.float (roundTo x places))
    | v, "common" =>
      match v.whole? with
      | some n =>
        if 0 ≤ places then return .int n
        else return .value (.float (roundTo (Binary64.ofInt n) places))
      | none => if d.isUndefined then .error .undefined else Datum.fault .type
    | v, _ =>
      if method != "ceil" && method != "floor" then Datum.fault (.other "FilterArgumentError")
      else match toFloat? v with
        | none => Datum.fault .type
        | some x =>
          let scale := Binary64.ofDecimal false 1 places
          let y := x.mul scale
          let z := if method == "floor" then y.floor else y.neg.floor.neg
          return .value (.float (z.div scale))⟩

def defaultFilter : Filter :=
  ⟨["default_value", "boolean"], fun _ d xs =>
    let boolean := (argument xs 1 (.bool false)).truthy
    .ok (if d.isUndefined || (boolean && !d.truthy) then argument xs 0 (.str "") else d)⟩

def sortFilter : Filter :=
  ⟨["reverse", "case_sensitive"], fun _ d xs => do
    let descending := (argument xs 0 (.bool false)).truthy
    let key := if (argument xs 1 (.bool false)).truthy then id else foldCase
    return .value (.list (← Datum.ofFault (sortValues key descending (← d.elements))))⟩

def sumFilter : Filter :=
  ⟨["attribute", "start"], fun _ d xs => do
    let start := (argument xs 1 (.int 0)).toValue
    return .value (← Datum.ofFault ((← d.elements).foldlM (Value.apply .add) start))⟩

def entriesOf (d : Datum) : Except Error Datum :=
  match d with
  | .undefined => .ok (.value (.list []))
  | .value (.map es) => .ok (.value (.list (es.map fun (k, v) => .tuple [k, v])))
  | _ => Datum.fault .type

def reversed (d : Datum) : Except Error Datum :=
  match d with
  | .value (.str s) => .ok (.str (String.ofList s.toList.reverse))
  | .markup s => .ok (.markup (String.ofList s.toList.reverse))
  | d => do return .value (.list (← d.elements).reverse)

def absolute (d : Datum) : Except Error Datum :=
  match d.toValue with
  | .float x => .ok (.value (.float (if x.isNegative then x.neg else x)))
  | v =>
    match v.whole? with
    | some n => .ok (.int n.natAbs)
    | none => if d.isUndefined then .error .undefined else Datum.fault .type

def wordCount : List Char → Nat
  | [] => 0
  | c :: cs =>
    if Text.isWord c && !(cs.head?.any Text.isWord) then wordCount cs + 1 else wordCount cs

def distinct (xs : List Value) : List Value :=
  (xs.foldl (fun (seen : List Value) x =>
    if seen.any fun y => (foldCase x).same (foldCase y) then seen else x :: seen) []).reverse

def filters : List (String × Filter) :=
  [("upper", .ofText Text.upper), ("lower", .ofText Text.lower), ("title", .ofText titled),
    ("capitalize", .ofText capitalized),
    ("trim", ⟨["chars"], fun _ d xs => .ok <|
      match (argument xs 0 .null).toValue with
      | .str chars => d.mapText fun s => String.ofList (trimChars chars.toList s.toList)
      | _ => d.mapText Text.trimmed⟩),
    ("safe", .plain fun d => .ok (.markup d.text)),
    ("escape", .plain fun d => .ok (.markup d.escaped)),
    ("e", .plain fun d => .ok (.markup d.escaped)),
    ("forceescape", .plain fun d => .ok (.markup (escapeText d.text))),
    ("string", .plain fun d => .ok (if d.isMarkup then d else .str d.text)),
    ("length", .plain fun d => do return .int (← d.size)),
    ("count", .plain fun d => do return .int (← d.size)),
    ("default", defaultFilter), ("d", defaultFilter),
    ("join", ⟨["d"], fun escape d xs => do
      return Datum.joinWith escape (argument xs 0 (.str "")) ((← d.elements).map .value)⟩),
    ("replace", replaceFilter),
    ("first", .plain fun d => do return ((← d.elements).head?).elim .undefined .value),
    ("last", .plain fun d => do return ((← d.elements).getLast?).elim .undefined .value),
    ("int", ⟨["default", "base"], fun _ d xs => do
      let base ← wholeOf (argument xs 1 (.int 10))
      if d.isUndefined then .error .undefined
      else return ((toInt? base.toNat d.toValue).map Datum.int).getD (argument xs 0 (.int 0))⟩),
    ("float", ⟨["default"], fun _ d xs =>
      if d.isUndefined then .error .undefined
      else .ok (((toFloat? d.toValue).map fun x => .value (.float x)).getD
        (argument xs 0 (.value (.float (.zero false)))))⟩),
    ("abs", .plain absolute), ("round", roundFilter), ("reverse", .plain reversed),
    ("sort", sortFilter), ("list", .plain listOf), ("sum", sumFilter), ("items", .plain entriesOf),
    ("min", .plain fun d => do extreme Value.less (← d.elements)),
    ("max", .plain fun d => do extreme (fun a b => Value.less b a) (← d.elements)),
    ("unique", .plain fun d => do return .value (.list (distinct (← d.elements)))),
    ("wordcount", .plain fun d => .ok (.int (wordCount d.text.toList))),
    ("tojson", .plain fun d => markupJson d.toValue)]

/--
A test: how many arguments it takes beside the datum, and its answer.
-/
structure Test where
  arity : Nat
  run : Datum → List Datum → Except Error Bool

def Test.ofValue (p : Value → Bool) : Test :=
  ⟨0, fun d _ => .ok (!d.isUndefined && p d.toValue)⟩

def Test.comparing (c : Comparison) : Test :=
  ⟨1, fun d xs => d.compare c (xs.headD .undefined)⟩

def remainder (d by_ : Datum) : Except Error Value :=
  if d.isUndefined || by_.isUndefined then .error .undefined
  else Datum.ofFault (d.toValue.apply .mod by_.toValue)

def isNumber : Value → Bool
  | .bool _ | .int _ | .float _ => true
  | _ => false

def isInteger : Value → Bool
  | .int _ => true
  | _ => false

def isFloat : Value → Bool
  | .float _ => true
  | _ => false

def isBool : Value → Bool
  | .bool _ => true
  | _ => false

def isString : Value → Bool
  | .str _ => true
  | _ => false

def isMapping : Value → Bool
  | .map _ => true
  | _ => false

def cased (upper : Bool) (s : String) : Bool :=
  s.toList.any (fun c => Text.upper (String.singleton c) != Text.lower (String.singleton c)) &&
    (if upper then Text.upper s else Text.lower s) == s

def tests : List (String × Test) :=
  [("defined", ⟨0, fun d _ => .ok !d.isUndefined⟩), ("undefined", ⟨0, fun d _ => .ok d.isUndefined⟩),
    ("none", .ofValue Value.isNull), ("true", .ofValue Value.isTrue),
    ("false", .ofValue Value.isFalse), ("boolean", .ofValue isBool), ("integer", .ofValue isInteger),
    ("float", .ofValue isFloat), ("number", .ofValue isNumber), ("string", .ofValue isString),
    ("mapping", .ofValue isMapping),
    ("sequence", ⟨0, fun d _ => .ok (d.isUndefined || d.toValue.size?.isSome)⟩),
    ("iterable", ⟨0, fun d _ => .ok (d.isUndefined || d.toValue.size?.isSome)⟩),
    ("callable", ⟨0, fun d _ => .ok (match d with
      | .method .. | .function _ | .cycle _ => true
      | _ => false)⟩),
    ("escaped", ⟨0, fun d _ => .ok d.isMarkup⟩),
    ("odd", ⟨0, fun d _ => do return (← remainder d (.int 2)).same (.int 1)⟩),
    ("even", ⟨0, fun d _ => do return (← remainder d (.int 2)).same (.int 0)⟩),
    ("divisibleby", ⟨1, fun d xs => do
      return (← remainder d (xs.headD .undefined)).same (.int 0)⟩),
    ("sameas", .comparing .eq), ("in", .comparing .mem),
    ("lower", .ofValue fun v => cased false v.plain), ("upper", .ofValue fun v => cased true v.plain),
    ("eq", .comparing .eq), ("equalto", .comparing .eq), ("==", .comparing .eq),
    ("ne", .comparing .ne), ("!=", .comparing .ne), ("lt", .comparing .lt),
    ("lessthan", .comparing .lt), ("<", .comparing .lt), ("le", .comparing .le), ("<=", .comparing .le),
    ("gt", .comparing .gt), ("greaterthan", .comparing .gt), (">", .comparing .gt),
    ("ge", .comparing .ge), (">=", .comparing .ge)]

end Polyglot.Template
