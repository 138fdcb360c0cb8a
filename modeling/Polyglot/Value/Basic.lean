import Polyglot.Calendar.Moment
import Polyglot.Component.Document
import Polyglot.Template.Basic
import Polyglot.Text.Torn

/-!
Values: what data formats hold, what programs compute, and the products of compilers.

Torn texts come from JSON and from callers. Programs, templates and configurations work on mended values.

Mappings keep their entries in order of first insertion. Keys are compared as numbers where they are
numbers, so `true`, `1` and `1.0` are one key.
-/

namespace Polyglot

/--
The parts of an interpreted component other than what its script exports. A component whose styles
are left to the caller names the head they go to by default.
-/
structure ComponentParts where
  template : Option String
  styles : List String
  location : String
  pendingHead : Option Nat

inductive Value where
  | null
  | bool (b : Bool)
  | int (n : Int)
  | float (x : Binary64)
  | str (s : String)
  | torn (t : Text.Torn)
  | bytes (bs : List UInt8)
  | list (xs : List Value)
  | tuple (xs : List Value)
  | set (xs : List Value)
  | map (entries : List (Value × Value))
  | moment (m : Moment)
  | program (names : List (String × Value))
  | function (name : String)
  | type (name : String)
  | object (kind : String)
  | head (id : Nat)
  | template (t : Template)
  | document (d : Component.Document)
  | component (exports name : Value) (parts : ComponentParts)
  | output (text diagnostics : Value)

instance : Inhabited Value := ⟨.null⟩

/--
The entries of a mapping, and options in general.
-/
abbrev Fields := List (Value × Value)

namespace Value

def typeName : Value → String
  | null => "NoneType"
  | bool _ => "bool"
  | int _ => "int"
  | float _ => "float"
  | str _ | torn _ => "str"
  | bytes _ => "bytes"
  | list _ => "list"
  | tuple _ => "tuple"
  | set _ => "set"
  | map _ => "dict"
  | moment m => m.kind
  | program _ => "module"
  | function _ => "function"
  | type _ => "type"
  | object kind => kind
  | head _ => "DocumentHead"
  | template _ => "Template"
  | document _ => "SFCDocument"
  | component .. => "ComponentModule"
  | output .. => "TranspileOutput"

def truthy : Value → Bool
  | null => false
  | bool b => b
  | int n => n != 0
  | float x => !x.isZero
  | str s => !s.isEmpty
  | bytes bs => !bs.isEmpty
  | list xs | tuple xs | set xs => !xs.isEmpty
  | map entries => !entries.isEmpty
  | _ => true

/--
Numbers as exact quotients: truth values, integers and finite floating-point numbers.
-/
def ratio? : Value → Option (Int × Nat)
  | bool b => some (if b then 1 else 0, 1)
  | int n => some (n, 1)
  | float x =>
    if x.isFinite then
      let (n, d) := x.ratio
      some (if x.isNegative then -n else n, d)
    else none
  | _ => none

/--
Equality of values. Numbers are equal when they stand for the same quantity.
-/
def same : Value → Value → Bool
  | null, null => true
  | str a, str b => a == b
  | torn a, torn b => a == b
  | bytes a, bytes b => a == b
  | moment a, moment b => a == b
  | list xs, list ys => sameAll xs ys
  | tuple xs, tuple ys => sameAll xs ys
  | set xs, set ys => xs.length == ys.length && among xs ys
  | map xs, map ys => xs.length == ys.length && within xs ys
  | function a, function b => a == b
  | type a, type b => a == b
  | head a, head b => a == b
  | float x, float y => x.same y
  | a, b =>
    match a.ratio?, b.ratio? with
    | some (n, d), some (m, e) => n * e == m * d
    | _, _ => false
where
  sameAll : List Value → List Value → Bool
    | [], [] => true
    | x :: xs, y :: ys => same x y && sameAll xs ys
    | _, _ => false
  among : List Value → List Value → Bool
    | [], _ => true
    | x :: xs, ys => ys.any (same x) && among xs ys
  within : List (Value × Value) → List (Value × Value) → Bool
    | [], _ => true
    | (k, v) :: xs, ys => ys.any (fun e => same k e.1 && same v e.2) && within xs ys

def isHashable : Value → Bool
  | list _ | set _ | map _ => false
  | tuple xs => all xs
  | _ => true
where
  all : List Value → Bool
    | [] => true
    | x :: xs => isHashable x && all xs

/--
Gives a key its value. A key that is already there keeps its place and its spelling.
-/
def insert (entries : List (Value × Value)) (key v : Value) : List (Value × Value) :=
  match entries with
  | [] => [(key, v)]
  | (k, w) :: rest => if same k key then (k, v) :: rest else (k, w) :: insert rest key v

def ofEntries (entries : List (Value × Value)) : List (Value × Value) :=
  entries.foldl (fun m e => insert m e.1 e.2) []

def ofParts (ps : List Text.Part) : Value :=
  if h : ps.any Text.Part.isHalf then torn ⟨ps, h⟩ else str (Text.mended ps)

def mended : Value → Value
  | torn t => str t.mended
  | list xs => list (all xs)
  | tuple xs => tuple (all xs)
  | set xs => set (all xs)
  | map es => map (ofEntries (pairs es))
  | v => v
where
  all : List Value → List Value
    | [] => []
    | x :: xs => mended x :: all xs
  pairs : List (Value × Value) → List (Value × Value)
    | [] => []
    | (k, v) :: es => (mended k, mended v) :: pairs es

def isString : Value → Bool
  | str _ | torn _ => true
  | _ => false

def isText (s : String) : Value → Bool
  | str t => s == t
  | _ => false

def find? (entries : List (Value × Value)) (key : String) : Option Value :=
  (entries.find? fun e => e.1.isText key).map (·.2)

def get? (v : Value) (key : String) : Option Value :=
  match v with
  | map entries => find? entries key
  | _ => none

def getD (v : Value) (key : String) : Value :=
  (v.get? key).getD null

def isNull : Value → Bool
  | null => true
  | _ => false

def isTrue : Value → Bool
  | bool b => b
  | _ => false

def isFalse : Value → Bool
  | bool b => !b
  | _ => false

def asText? : Value → Option String
  | str s => some s
  | _ => none

def ofFields (fields : List (String × Value)) : Value :=
  map (fields.map fun (k, v) => (str k, v))

def ofOption (v : Option Value) : Value :=
  v.getD null

def ofText? (s : Option String) : Value :=
  (s.map str).getD null

end Value

end Polyglot
