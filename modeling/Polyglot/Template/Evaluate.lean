import Polyglot.Table
import Polyglot.Template.Filter

/-!
What the expressions of a template stand for, and which of them cannot stand for anything because a
filter or test is unknown.
-/

namespace Polyglot.Template

/--
The names that have a value, those of the innermost loop first, and whether text is escaped.
-/
structure Env where
  scopes : List (Table String Datum)
  escape : Bool

def globals : List String := ["range", "dict", "lipsum", "cycler", "joiner", "namespace"]

namespace Env

def get (e : Env) (name : String) : Datum :=
  match e.scopes.findSome? (·.get? name) with
  | some d => d
  | none => if globals.contains name then .function name else .undefined

def set (e : Env) (name : String) (d : Datum) : Env :=
  match e.scopes with
  | [] => { e with scopes := [Table.set {} name d] }
  | s :: rest => { e with scopes := s.set name d :: rest }

def enter (e : Env) : Env :=
  { e with scopes := {} :: e.scopes }

end Env

def rangeOf (args : List Datum) : Except Error Datum := do
  let ns ← args.mapM wholeOf
  let count (a b step : Int) : List Value :=
    let n := if 0 < step then (b - a + step - 1) / step else (a - b + -step - 1) / -step
    (List.range n.toNat).map fun (k : Nat) => .int (a + (k : Int) * step)
  match ns with
  | [b] => return .value (.list (count 0 b 1))
  | [a, b] => return .value (.list (count a b 1))
  | [a, b, step] => if step = 0 then Datum.fault .value else return .value (.list (count a b step))
  | _ => Datum.fault .type

def textMethod (self : Datum) (name : String) (args : List Datum) : Except Error Datum := do
  let s := self.text.toList
  let trimmed (f g : List Char → List Char) (chars : List Char → List Char → List Char) :
      Except Error Datum :=
    match args with
    | [] => .ok (self.like (String.ofList (f (g s))))
    | [d] => .ok (self.like (String.ofList (chars d.text.toList s)))
    | _ => Datum.fault .type
  let dropLeft (cs s : List Char) : List Char := s.dropWhile (cs.contains ·)
  let dropRight (cs s : List Char) : List Char := (s.reverse.dropWhile (cs.contains ·)).reverse
  match name, args with
  | "upper", [] => return self.mapText Text.upper
  | "lower", [] => return self.mapText Text.lower
  | "capitalize", [] => return self.mapText capitalized
  | "strip", _ => trimmed Text.trimLeft Text.trimRight trimChars
  | "lstrip", _ => trimmed Text.trimLeft id dropLeft
  | "rstrip", _ => trimmed Text.trimRight id dropRight
  | "split", [] =>
    return .value (.list ((wordsOf s).map fun w => .str (String.ofList w)))
  | "split", [sep] =>
    if sep.text.isEmpty then Datum.fault .value
    else return .value (.list ((cutAll (s.length + 1) sep.text.toList s).map fun w =>
      .str (String.ofList w)))
  | "join", [d] => return Datum.joinWith self.isMarkup self ((← d.elements).map .value)
  | "replace", [old, new] =>
    return self.like (String.ofList (replaceText none old.text.toList new.text.toList s))
  | "startswith", [d] => return .bool (Text.startsWith d.text.toList s)
  | "endswith", [d] => return .bool (Text.startsWith d.text.toList.reverse s.reverse)
  | _, _ => Datum.fault .type
where
  wordsOf (cs : List Char) : List (List Char) :=
    (cs.splitBy fun a b => Text.isBlank a == Text.isBlank b).filter fun w => !w.any Text.isBlank
  cutAll : Nat → List Char → List Char → List (List Char)
    | 0, _, cs => [cs]
    | fuel + 1, sep, cs =>
      match Text.cut? sep cs with
      | some (before, rest) => before :: cutAll fuel sep rest
      | none => [cs]

def mapMethod (es : Fields) (name : String) (args : List Datum) : Except Error Datum :=
  match name, args with
  | "keys", [] => .ok (.value (.list (es.map (·.1))))
  | "values", [] => .ok (.value (.list (es.map (·.2))))
  | "items", [] => .ok (.value (.list (es.map fun (k, v) => .tuple [k, v])))
  | "get", [k] => .ok (((Datum.entry? (.value (.map es)) k.toValue)).getD .null)
  | "get", [k, d] => .ok (((Datum.entry? (.value (.map es)) k.toValue)).getD d)
  | _, _ => Datum.fault .type

def callDatum (f : Datum) (g : Given) : Except Error Datum :=
  match f with
  | .undefined => .error .undefined
  | .function "range" => if g.named.isEmpty then rangeOf g.args else Datum.fault .type
  | .function "dict" =>
    if g.args.isEmpty then
      .ok (.value (.map (Value.ofEntries (g.named.map fun (k, d) => (.str k, d.toValue)))))
    else Datum.fault .type
  | .cycle n =>
    match g.args with
    | [] => Datum.fault .type
    | ds => .ok ((ds[n % ds.length]?).getD .undefined)
  | .method (.value (.map es)) name => mapMethod es name g.args
  | .method d name => textMethod d name g.args
  | _ => Datum.fault .type

def applyFilter (escape : Bool) (name : String) (d : Datum) (g : Given) : Except Error Datum :=
  match filters.lookup name with
  | some f => do f.run escape d (← g.bind f.params)
  | none => .error .runtime

def applyTest (name : String) (d : Datum) (args : List Datum) : Except Error Bool :=
  match tests.lookup name with
  | some t => if args.length = t.arity then t.run d args else Datum.fault .type
  | none => .error .runtime

namespace Literal

def datum : Literal → Datum
  | str s => .str s
  | int n => .int n
  | float x => .value (.float x)
  | bool b => .bool b
  | none => .null

end Literal

namespace Expr

/--
What an expression stands for. Of `and`, `or` and a choice only the parts that count are worked out.
-/
def eval (env : Env) : Expr → Except Error Datum
  | literal l => .ok l.datum
  | name n => .ok (env.get n)
  | list xs => do return .value (.list ((← all xs).map Datum.toValue))
  | tuple xs => do return .value (.tuple ((← all xs).map Datum.toValue))
  | dict es => do
    let es ← entries es
    if es.all (·.1.isHashable) then return .value (.map (Value.ofEntries es)) else Datum.fault .type
  | attr e n => do (← eval env e).attr n
  | item e i => do (← eval env e).item (← eval env i)
  | slice e start stop step => do
    let d ← eval env e
    let a ← optional start
    let b ← optional stop
    let c ← optional step
    if d.isUndefined then .error .undefined
    else return d.likeValue (← Datum.ofFault (d.toValue.slice a b c))
  | call f args given => do
    let f ← eval env f
    let args ← all args
    callDatum f ⟨args, ← named given⟩
  | filter e n args given => do
    let d ← eval env e
    let args ← all args
    applyFilter env.escape n d ⟨args, ← named given⟩
  | test e n args => do
    let d ← eval env e
    return .bool (← applyTest n d (← all args))
  | not e => do return .bool !(← eval env e).truthy
  | negate e => do
    let d ← eval env e
    if d.isUndefined then .error .undefined
    else return .value (← Datum.ofFault d.toValue.negate)
  | positive e => do
    let d ← eval env e
    if d.isUndefined then .error .undefined
    else return .value (← Datum.ofFault d.toValue.positive)
  | arithmetic op l r => do
    let a ← eval env l
    Datum.arithmetic op a (← eval env r)
  | joined xs => do return Datum.joined env.escape (← all xs)
  | and l r => do
    let a ← eval env l
    if a.truthy then eval env r else return a
  | or l r => do
    let a ← eval env l
    if a.truthy then return a else eval env r
  | compare e links => do
    let d ← eval env e
    return .bool (← chain d links)
  | choose cond yes no => do
    if (← eval env cond).truthy then eval env yes
    else match no with
      | some e => eval env e
      | none => return .undefined
where
  all : List Expr → Except Error (List Datum)
    | [] => .ok []
    | e :: es => do
      let d ← eval env e
      return d :: (← all es)
  entries : List (Expr × Expr) → Except Error Fields
    | [] => .ok []
    | (k, v) :: es => do
      let k ← eval env k
      let v ← eval env v
      return (k.toValue, v.toValue) :: (← entries es)
  named : List (String × Expr) → Except Error (List (String × Datum))
    | [] => .ok []
    | (n, e) :: es => do
      let d ← eval env e
      return (n, d) :: (← named es)
  optional : Option Expr → Except Error Value
    | none => .ok .null
    | some e => do return (← eval env e).toValue
  chain (d : Datum) : List (Comparison × Expr) → Except Error Bool
    | [] => .ok true
    | (c, e) :: es => do
      let x ← eval env e
      if ← d.compare c x then chain x es else return false

/--
Whether all filters and tests are known. Where a choice may leave them out they need not be.
-/
def isKnown (soft : Bool) : Expr → Bool
  | literal _ | name _ => true
  | list xs | tuple xs | joined xs => all soft xs
  | dict es => entries es
  | attr e _ | not e | negate e | positive e => isKnown soft e
  | item e i => isKnown soft e && isKnown soft i
  | slice e a b c => isKnown soft e && optional soft a && optional soft b && optional soft c
  | call f args given => isKnown soft f && all soft args && named given
  | filter e n args given =>
    (soft || (filters.lookup n).isSome) && isKnown soft e && all soft args && named given
  | test e n args => (soft || (tests.lookup n).isSome) && isKnown soft e && all soft args
  | arithmetic _ l r | and l r | or l r => isKnown soft l && isKnown soft r
  | compare e links => isKnown soft e && chain links
  | choose cond yes no => isKnown true cond && isKnown true yes && optional true no
where
  all (soft : Bool) : List Expr → Bool
    | [] => true
    | e :: es => isKnown soft e && all soft es
  entries : List (Expr × Expr) → Bool
    | [] => true
    | (k, v) :: es => isKnown soft k && isKnown soft v && entries es
  named : List (String × Expr) → Bool
    | [] => true
    | (_, e) :: es => isKnown soft e && named es
  optional (soft : Bool) : Option Expr → Bool
    | none => true
    | some e => isKnown soft e
  chain : List (Comparison × Expr) → Bool
    | [] => true
    | (_, e) :: es => isKnown soft e && chain es

end Expr

end Polyglot.Template
