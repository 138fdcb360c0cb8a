import Polyglot.Program.Basic
import Polyglot.Program.Reader
import Polyglot.Table

/-!
Running a program: its statements in turn give names to values. Functions are named but never called.
-/

namespace Polyglot.Program

/--
The names that have a value, and those of them that are kinds of failures.
-/
structure State where
  names : Table String Value := {}
  failures : List String := []

def knownFailures : List String :=
  ["BaseException", "Exception", "ArithmeticError", "AssertionError", "AttributeError",
    "BlockingIOError", "BrokenPipeError", "BufferError", "ChildProcessError",
    "ConnectionAbortedError", "ConnectionError", "ConnectionRefusedError", "ConnectionResetError",
    "DeprecationWarning", "EOFError", "EnvironmentError", "FileExistsError", "FileNotFoundError",
    "FloatingPointError", "FutureWarning", "GeneratorExit", "IOError", "ImportError",
    "ImportWarning", "IndentationError", "IndexError", "InterruptedError", "IsADirectoryError",
    "KeyError", "KeyboardInterrupt", "LookupError", "MemoryError", "ModuleNotFoundError",
    "NameError", "NotADirectoryError", "NotImplementedError", "OSError", "OverflowError",
    "PendingDeprecationWarning", "PermissionError", "ProcessLookupError", "RecursionError",
    "ReferenceError", "ResourceWarning", "RuntimeError", "RuntimeWarning", "StopAsyncIteration",
    "StopIteration", "SyntaxError", "SyntaxWarning", "SystemError", "SystemExit", "TabError",
    "TimeoutError", "TypeError", "UnboundLocalError", "UnicodeDecodeError", "UnicodeEncodeError",
    "UnicodeError", "UnicodeTranslateError", "UnicodeWarning", "UserWarning", "ValueError",
    "Warning", "ZeroDivisionError"]

def failureName (n : String) : String :=
  if n == "IOError" || n == "EnvironmentError" then "OSError" else n

def knownTypes : List String :=
  ["object", "type", "int", "float", "str", "bool", "bytes", "list", "tuple", "dict", "set",
    "frozenset", "bytearray", "complex", "range", "slice", "property", "staticmethod",
    "classmethod", "super", "enumerate", "zip", "map", "filter", "reversed", "memoryview"]

def knownFunctions : List String :=
  ["len", "abs", "print", "repr", "sum", "min", "max", "sorted", "round", "any", "all", "isinstance",
    "issubclass", "getattr", "setattr", "hasattr", "delattr", "callable", "chr", "ord", "hex", "oct",
    "bin", "divmod", "pow", "id", "hash", "iter", "next", "open", "input", "format", "vars", "dir",
    "globals", "locals", "eval", "exec", "compile"]

def State.get? (s : State) (n : String) : Option Value :=
  (s.names.get? n).or <|
    if knownFailures.contains n then some (.type (failureName n))
    else if knownTypes.contains n then some (.type n)
    else if knownFunctions.contains n then some (.function n)
    else if n == "NotImplemented" then some (.object "NotImplementedType")
    else if n == "Ellipsis" then some (.object "ellipsis")
    else none

def State.set (s : State) (n : String) (v : Value) : State :=
  { s with names := s.names.set n v }

def State.isFailure (s : State) (n : String) : Bool :=
  s.failures.contains n || knownFailures.contains n

def fault {α : Type} (f : Fault) : Except Error α :=
  .error (.evaluation f)

def ofFault {α : Type} (r : Except Fault α) : Except Error α :=
  r.mapError .evaluation

def wholePair? (a b : Value) : Option (Int × Int) := do
  return (← a.whole?, ← b.whole?)

/--
The digits that two whole numbers have in common; a negative number has endless leading ones.
-/
def bitAnd : Int → Int → Int
  | .ofNat a, .ofNat b => (a &&& b : Nat)
  | .ofNat a, .negSucc b => (a ^^^ (a &&& b) : Nat)
  | .negSucc a, .ofNat b => (b ^^^ (a &&& b) : Nat)
  | .negSucc a, .negSucc b => .negSucc (a ||| b)

def bitNot (n : Int) : Int :=
  -n - 1

def bitOr (m n : Int) : Int :=
  bitNot (bitAnd (bitNot m) (bitNot n))

def bitXor (m n : Int) : Int :=
  bitAnd (bitOr m n) (bitNot (bitAnd m n))

def bitsOf (op : BinaryOp) (m n : Int) : Except Error Int :=
  match op with
  | .shiftLeft => if n < 0 then fault .value else .ok (m * Nat.pow 2 n.toNat)
  | .shiftRight => if n < 0 then fault .value else .ok (m.fdiv (Nat.pow 2 n.toNat))
  | .bitOr => .ok (bitOr m n)
  | .bitXor => .ok (bitXor m n)
  | .bitAnd => .ok (bitAnd m n)
  | _ => fault .type

/--
Operations on the binary digits of whole numbers, and the like on sets and on truth values.
-/
def bitOp (op : BinaryOp) (a b : Value) : Except Error Value :=
  match a, b, op with
  | .set xs, .set ys, .bitOr =>
    .ok (.set (xs ++ ys.filter fun y => !xs.any (Value.same y)))
  | .set xs, .set ys, .bitAnd => .ok (.set (xs.filter fun x => ys.any (Value.same x)))
  | .set xs, .set ys, .bitXor =>
    .ok (.set (xs.filter (fun x => !ys.any (Value.same x)) ++
      ys.filter fun y => !xs.any (Value.same y)))
  | .map xs, .map ys, .bitOr => .ok (.map (ys.foldl (fun m e => Value.insert m e.1 e.2) xs))
  | .bool x, .bool y, .bitOr => .ok (.bool (x || y))
  | .bool x, .bool y, .bitXor => .ok (.bool (x != y))
  | .bool x, .bool y, .bitAnd => .ok (.bool (x && y))
  | a, b, op =>
    match wholePair? a b with
    | none => fault .type
    | some (m, n) => (bitsOf op m n).map .int

def applyBinary (op : BinaryOp) (a b : Value) : Except Error Value :=
  match op with
  | .arithmetic op => ofFault (a.apply op b)
  | .matrix => fault .type
  | op => bitOp op a b

def identical (a b : Value) : Bool :=
  a.typeName == b.typeName && a.same b

def relate (r : Relation) (a b : Value) : Except Error Bool :=
  match r with
  | .comparison c => ofFault (a.compare c b)
  | .identical => .ok (identical a b)
  | .distinct => .ok (!identical a b)

def toNumber (v : Value) : Except Error Value :=
  match v with
  | .str s =>
    let (negative, ds) := Number.takeSign (s.toList.filter fun c => c != ' ')
    if ds.isEmpty || !ds.all Text.isDecimal then fault .value
    else
      let n : Int := Text.ofDecimals ds
      .ok (.int (if negative then -n else n))
  | .float x => if x.isFinite then .ok (.int x.truncate) else fault .value
  | v => match v.whole? with
    | some n => .ok (.int n)
    | none => fault .type

def toFloat (v : Value) : Except Error Value :=
  match v with
  | .str s => match Number.float? s with
    | some x => .ok (.float x)
    | none => fault .value
  | .float x => .ok (.float x)
  | v => match v.whole? with
    | some n => do return .float (← ofFault (Value.toFloat n))
    | none => fault .type

def distinctValues (xs : List Value) : List Value :=
  (xs.foldl (fun (seen : List Value) x => if seen.any (Value.same x) then seen else x :: seen) []).reverse

/--
The result of a call. Calls that do more than make a value of a simple kind have none.
-/
def callValue (s : State) (f : Value) (args : List Value) (named : List (String × Value)) :
    Except Error Value :=
  match f, args with
  | .type n, args =>
    if s.isFailure n then .ok (.object n)
    else if !knownTypes.contains n then .ok (.object n)
    else match n, args with
      | "str", [] => .ok (.str "")
      | "str", [v] => .ok (.str v.plain)
      | "bool", [] => .ok (.bool false)
      | "bool", [v] => .ok (.bool v.truthy)
      | "int", [] => .ok (.int 0)
      | "int", [v] => toNumber v
      | "float", [] => .ok (.float (.zero false))
      | "float", [v] => toFloat v
      | "list", [] => .ok (.list [])
      | "list", [v] => do return .list (← ofFault v.elements)
      | "tuple", [] => .ok (.tuple [])
      | "tuple", [v] => do return .tuple (← ofFault v.elements)
      | "set", [] => .ok (.set [])
      | "set", [v] => do return .set (distinctValues (← ofFault v.elements))
      | "dict", [] => .ok (.map (named.map fun (k, v) => (.str k, v)))
      | "object", [] => .ok (.object "object")
      | _, _ => fault .type
  | .function "len", [v] => match v.size? with
    | some n => .ok (.int n)
    | none => fault .type
  | .function "abs", [.float x] => .ok (.float (if x.isNegative then x.neg else x))
  | .function "abs", [v] => match v.whole? with
    | some n => .ok (.int n.natAbs)
    | none => fault .type
  | .function "repr", [v] => .ok (.str v.spelled)
  | _, _ => fault .type

def attributeOf (v : Value) (n : String) : Except Error Value :=
  match v with
  | .program names => match names.lookup n with
    | some v => .ok v
    | none => fault .attribute
  | _ => fault .attribute

def Expr.eval (s : State) : Expr → Except Error Value
  | .constant v => .ok v
  | .name n => match s.get? n with
    | some v => .ok v
    | none => .error .undefinedName
  | .list xs => do return .list (← all xs)
  | .tuple xs => do return .tuple (← all xs)
  | .set xs => do
    let xs ← all xs
    if xs.all (·.isHashable) then return .set (distinctValues xs) else fault .type
  | .dict es => do
    let es ← entries es
    if es.all (·.1.isHashable) then return .map (Value.ofEntries es) else fault .type
  | .attr e n => do attributeOf (← eval s e) n
  | .item e i => do
    let v ← eval s e
    ofFault (v.item (← eval s i))
  | .slice e a b c => do
    let v ← eval s e
    let a ← optional a
    let b ← optional b
    ofFault (v.slice a b (← optional c))
  | .call f args given => do
    let f ← eval s f
    let args ← all args
    callValue s f args (← named given)
  | .not e => do return .bool !(← eval s e).truthy
  | .negate e => do ofFault (← eval s e).negate
  | .positive e => do ofFault (← eval s e).positive
  | .invert e => do
    match (← eval s e).whole? with
    | some n => return .int (-n - 1)
    | none => fault .type
  | .binary op l r => do
    let a ← eval s l
    applyBinary op a (← eval s r)
  | .and l r => do
    let a ← eval s l
    if a.truthy then eval s r else return a
  | .or l r => do
    let a ← eval s l
    if a.truthy then return a else eval s r
  | .compare e links => do
    let a ← eval s e
    return .bool (← chain a links)
  | .choose test yes no => do
    if (← eval s test).truthy then eval s yes else eval s no
  | .function => .ok (.function "<lambda>")
  | .starred _ | .unread => fault .type
where
  all : List Expr → Except Error (List Value)
    | [] => .ok []
    | e :: es => do
      let v ← match e with
        | .starred e => do ofFault (← eval s e).elements
        | e => do pure [← eval s e]
      return v ++ (← all es)
  entries : List (Expr × Expr) → Except Error Fields
    | [] => .ok []
    | (k, v) :: es => do
      let k ← eval s k
      let v ← eval s v
      return (k, v) :: (← entries es)
  named : List (String × Expr) → Except Error (List (String × Value))
    | [] => .ok []
    | (n, e) :: es => do
      let v ← eval s e
      return (n, v) :: (← named es)
  optional : Option Expr → Except Error Value
    | none => .ok .null
    | some e => eval s e
  chain (a : Value) : List (Relation × Expr) → Except Error Bool
    | [] => .ok true
    | (r, e) :: es => do
      let b ← eval s e
      if ← relate r a b then chain b es else return false

def putItem (v index x : Value) : Except Error Value :=
  match v with
  | .map es => if index.isHashable then .ok (.map (Value.insert es index x)) else fault .type
  | .list xs =>
    match index.whole? with
    | none => fault .type
    | some n =>
      let i := if n < 0 then n + xs.length else n
      if i < 0 || (xs.length : Int) ≤ i then fault .index else .ok (.list (xs.set i.toNat x))
  | _ => fault .type

/--
Gives a target its value; several targets take a list apart.
-/
def assign (s : State) (v : Value) : Expr → Except Error State
  | .name n => .ok (s.set n v)
  | .tuple ts | .list ts => do
    let xs ← ofFault v.elements
    if ts.length = xs.length then each s xs ts else fault .value
  | .item (.name n) i => do
    let index ← i.eval s
    match s.get? n with
    | some old => return s.set n (← putItem old index v)
    | none => .error .undefinedName
  | .item e i => do
    let old ← e.eval s
    let _ ← putItem old (← i.eval s) v
    return s
  | .attr e _ => do
    let _ ← e.eval s
    fault .attribute
  | _ => fault .type
where
  each (s : State) (xs : List Value) : List Expr → Except Error State
    | [] => .ok s
    | t :: ts =>
      match xs with
      | [] => .ok s
      | x :: xs => do each (← assign s x t) xs ts

def remove (s : State) : Expr → Except Error State
  | .name n =>
    if s.names.has n then .ok { s with names := s.names.erase n } else .error .undefinedName
  | .item (.name n) i => do
    let index ← i.eval s
    match s.get? n with
    | none => .error .undefinedName
    | some (.map es) =>
      let _ ← ofFault ((Value.map es).item index)
      return s.set n (.map (es.filter fun e => !e.1.same index))
    | some (.list xs) =>
      let _ ← ofFault ((Value.list xs).item index)
      let i := (index.whole?.getD 0)
      let place := if i < 0 then i + xs.length else i
      return s.set n (.list (xs.eraseIdx place.toNat))
    | some _ => fault .type
  | .tuple ts | .list ts => each s ts
  | _ => fault .type
where
  each (s : State) : List Expr → Except Error State
    | [] => .ok s
    | t :: ts => do each (← remove s t) ts

inductive Flow where
  | onward
  | stop
  | next
  deriving DecidableEq

def raised (s : State) (v : Value) : Error :=
  match v with
  | .type n | .object n => if s.isFailure n then .evaluation (.other n) else .evaluation .type
  | _ => .evaluation .type

def catches (kind : String) : Value → Bool
  | .type n =>
    n == kind || n == "Exception" || n == "BaseException" ||
      (n == "LookupError" && (kind == "KeyError" || kind == "IndexError")) ||
      (n == "ArithmeticError" && (kind == "ZeroDivisionError" || kind == "OverflowError"))
  | .tuple ns => any ns
  | _ => false
where
  any : List Value → Bool
    | [] => false
    | n :: ns => catches kind n || any ns

def turnLimit : Nat := 100000

def whileTrue (test : State → Except Error Bool) (body : State → Except Error (State × Flow)) :
    Nat → State → Except Error (State × Bool)
  | 0, _ => .error (.evaluation (.other "TimeoutError"))
  | fuel + 1, s => do
    if ← test s then
      let (s, flow) ← body s
      if flow = .stop then return (s, true) else whileTrue test body fuel s
    else return (s, false)

def forEach (body : State → Value → Except Error (State × Flow)) :
    State → List Value → Except Error (State × Bool)
  | s, [] => .ok (s, false)
  | s, x :: xs => do
    let (s, flow) ← body s x
    if flow = .stop then return (s, true) else forEach body s xs

mutual

def Statement.run (s : State) : Statement → Except Error (State × Flow)
  | .expr e => do
    let _ ← e.eval s
    return (s, .onward)
  | .assign targets e => do
    let v ← e.eval s
    return (← targets.foldlM (fun s t => assign s v t) s, .onward)
  | .update target op e => do
    let old ← target.eval s
    let v ← applyBinary op old (← e.eval s)
    return (← assign s v target, .onward)
  | .annotate target note e => do
    let s ← match e with
      | some e => do
        let v ← e.eval s
        assign s v target
      | none => pure s
    let _ ← note.eval s
    return (s, .onward)
  | .pass | .leave => .ok (s, .onward)
  | .stop => .ok (s, .stop)
  | .next => .ok (s, .next)
  | .raise none => fault (.other "RuntimeError")
  | .raise (some e) => do .error (raised s (← e.eval s))
  | .delete targets => do return (← targets.foldlM remove s, .onward)
  | .assert test message => do
    if (← test.eval s).truthy then return (s, .onward)
    else
      if let some m := message then
        let _ ← m.eval s
      fault (.other "AssertionError")
  | .load modules => .error (.noModule ((modules.map (·.1)).headD ""))
  | .branch arms otherwise => do
    match ← runArms s arms with
    | some found => return found
    | none => runAll s otherwise
  | .loop target items body otherwise => do
    let xs ← ofFault (← items.eval s).elements
    let (s, stopped) ← forEach (fun s x => do runAll (← assign s x target) body) s xs
    if stopped then return (s, .onward) else runAll s otherwise
  | .repeat test body otherwise => do
    let (s, stopped) ← whileTrue (fun s => do return (← test.eval s).truthy)
      (fun s => runAll s body) turnLimit s
    if stopped then return (s, .onward) else runAll s otherwise
  | .attempt body handlers otherwise final => do
    let outcome := runAll s body
    let outcome ← match outcome with
      | .ok (s, .onward) => pure (runAll s otherwise)
      | .ok found => pure (.ok found)
      | .error e => do
        match ← runHandlers s e handlers with
        | some found => pure (.ok found)
        | none => pure (.error e)
    match outcome with
    | .ok (s, flow) => do
      let (s, last) ← runAll s final
      return (s, if last = .onward then flow else last)
    | .error e => do
      let _ ← runAll s final
      .error e
  | .define n evaluated => do
    let _ ← evaluated.mapM fun e => e.eval s
    return (s.set n (.function n), .onward)
  | .type n bases body => do
    let vs ← bases.mapM fun e => e.eval s
    let _ ← runAll s body
    let fails := vs.any fun
      | .type b => s.isFailure b
      | _ => false
    let s := if fails then { s with failures := n :: s.failures } else s
    return (s.set n (.type n), .onward)

def runAll (s : State) : List Statement → Except Error (State × Flow)
  | [] => .ok (s, .onward)
  | t :: ts => do
    let (s, flow) ← Statement.run s t
    if flow = .onward then runAll s ts else return (s, flow)

def runArms (s : State) : List (Expr × List Statement) → Except Error (Option (State × Flow))
  | [] => .ok none
  | (test, body) :: arms => do
    if (← test.eval s).truthy then return some (← runAll s body) else runArms s arms

def runHandlers (s : State) (e : Error) :
    List (Option Expr × Option String × List Statement) → Except Error (Option (State × Flow))
  | [] => .ok none
  | (kind, name, body) :: rest => do
    let hit ← match kind with
      | none => pure true
      | some k => do pure (catches e.kind (← k.eval s))
    if hit then
      let s := match name with
        | some n => s.set n (.object e.kind)
        | none => s
      let (s, flow) ← runAll s body
      let s := match name with
        | some n => { s with names := s.names.erase n }
        | none => s
      return some (s, flow)
    else runHandlers s e rest

end

/--
The names that are there before a program runs.
-/
def start (location : String) : List (String × Value) :=
  [("__name__", .str (nameOf location)), ("__doc__", .null), ("__package__", .null),
    ("__loader__", .null), ("__spec__", .null), ("__file__", .str location)]

def run (location source : String) : Except Error Value := do
  if source.toList.contains '\x00' then fault .value
  else
    let body ← read source
    let (s, _) ← runAll { names := ⟨start location⟩ } body
    return .program s.names.entries

end Polyglot.Program
