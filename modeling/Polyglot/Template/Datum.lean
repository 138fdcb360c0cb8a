import Polyglot.Template.Basic
import Polyglot.Text.Character
import Polyglot.Value.Arithmetic

/-!
What the expressions of a template stand for: values, text that is markup already, names without a
value, and what a loop knows of its turns.
-/

namespace Polyglot.Template

structure Turn where
  items : List Value
  index : Nat

inductive Datum where
  | value (v : Value)
  | markup (s : String)
  | undefined
  | turn (t : Turn)
  | cycle (index : Nat)
  | method (self : Datum) (name : String)
  | function (name : String)

instance : Inhabited Datum := ⟨.undefined⟩

def escapeChar (c : Char) : List Char :=
  if c == '&' then "&amp;".toList
  else if c == '<' then "&lt;".toList
  else if c == '>' then "&gt;".toList
  else if c == '\'' then "&#39;".toList
  else if c == '"' then "&#34;".toList
  else [c]

def escapeText (s : String) : String :=
  String.ofList (s.toList.flatMap escapeChar)

namespace Datum

def null : Datum := .value .null

def str (s : String) : Datum := .value (.str s)

def bool (b : Bool) : Datum := .value (.bool b)

def int (n : Int) : Datum := .value (.int n)

def toValue : Datum → Value
  | value v => v
  | markup s => .str s
  | undefined => .object "Undefined"
  | turn _ => .object "LoopContext"
  | cycle _ | method .. => .object "method"
  | function name => .function name

def text : Datum → String
  | markup s => s
  | undefined => ""
  | d => d.toValue.plain

def escaped : Datum → String
  | markup s => s
  | d => escapeText d.text

def isMarkup : Datum → Bool
  | markup _ => true
  | _ => false

def isUndefined : Datum → Bool
  | undefined => true
  | _ => false

def truthy : Datum → Bool
  | undefined => false
  | d => d.toValue.truthy

def like (d : Datum) (s : String) : Datum :=
  if d.isMarkup then markup s else str s

def likeValue (d : Datum) (v : Value) : Datum :=
  match v with
  | .str s => d.like s
  | v => value v

def ofFault {α : Type} (r : Except Fault α) : Except Error α :=
  r.mapError .evaluation

def fault {α : Type} (f : Fault) : Except Error α :=
  .error (.evaluation f)

def elements : Datum → Except Error (List Value)
  | undefined => .ok []
  | turn _ => fault .type
  | d => ofFault d.toValue.elements

def size : Datum → Except Error Nat
  | undefined => .ok 0
  | turn t => .ok t.items.length
  | d =>
    match d.toValue.size? with
    | some n => .ok n
    | none => fault .type

def textMethods : List String :=
  ["upper", "lower", "strip", "lstrip", "rstrip", "capitalize", "split", "join", "replace",
    "startswith", "endswith"]

def mapMethods : List String := ["keys", "values", "items", "get"]

def turnValue (t : Turn) (name : String) : Datum :=
  let count := t.items.length
  match name with
  | "index" => int (t.index + 1)
  | "index0" => int t.index
  | "revindex" => int (count - t.index : Nat)
  | "revindex0" => int (count - t.index - 1 : Nat)
  | "first" => bool (t.index == 0)
  | "last" => bool (t.index + 1 == count)
  | "length" => int count
  | "depth" => int 1
  | "depth0" => int 0
  | "previtem" =>
    if t.index = 0 then undefined else (t.items[t.index - 1]?).elim undefined value
  | "nextitem" => (t.items[t.index + 1]?).elim undefined value
  | "cycle" => cycle t.index
  | _ => undefined

def member? (d : Datum) (name : String) : Option Datum :=
  match d with
  | markup _ | value (.str _) => if textMethods.contains name then some (method d name) else none
  | value (.map _) => if mapMethods.contains name then some (method d name) else none
  | value (.program names) => (names.lookup name).map value
  | turn t =>
    match turnValue t name with
    | undefined => none
    | v => some v
  | _ => none

def entry? (d : Datum) (key : Value) : Option Datum :=
  match d with
  | value v | method (value v) _ => match v.item key with
    | .ok v => some (value v)
    | .error _ => none
  | markup s => match (Value.str s).item key with
    | .ok v => some (value v)
    | .error _ => none
  | _ => none

def attr (d : Datum) (name : String) : Except Error Datum :=
  match d with
  | undefined => .error .undefined
  | d => .ok ((d.member? name).getD ((d.entry? (.str name)).getD undefined))

def item (d index : Datum) : Except Error Datum :=
  match d with
  | undefined => .error .undefined
  | d =>
    .ok <| (d.entry? index.toValue).getD <|
      match index with
      | value (.str name) | markup name => (d.member? name).getD undefined
      | _ => undefined

def same : Datum → Datum → Bool
  | undefined, undefined => true
  | undefined, _ | _, undefined => false
  | a, b => a.toValue.same b.toValue

def compare (c : Comparison) (a b : Datum) : Except Error Bool :=
  match c with
  | .eq => .ok (same a b)
  | .ne => .ok (!same a b)
  | .mem => if b.isUndefined then .ok false else ofFault (a.toValue.isIn b.toValue)
  | .notMem => if b.isUndefined then .ok true else ofFault ((a.toValue.isIn b.toValue).map (!·))
  | c =>
    if a.isUndefined || b.isUndefined then .error .undefined
    else ofFault (a.toValue.compare c b.toValue)

def arithmetic (op : Op) (a b : Datum) : Except Error Datum :=
  if a.isUndefined || b.isUndefined then .error .undefined
  else if a.isMarkup || b.isMarkup then
    match op, a.toValue, b.toValue with
    | .add, .str _, .str _ => .ok (markup (a.escaped ++ b.escaped))
    | .mul, x, y => do
      match ← ofFault (x.apply .mul y) with
      | .str s => return markup s
      | v => return value v
    | _, _, _ => fault .type
  else (ofFault (a.toValue.apply op b.toValue)).map value

/--
Data written one behind the other. In markup the result is markup as soon as one of them is.
-/
def joined (escape : Bool) (ds : List Datum) : Datum :=
  if escape && ds.any isMarkup then markup (String.join (ds.map escaped))
  else str (String.join (ds.map text))

def joinWith (escape : Bool) (sep : Datum) (ds : List Datum) : Datum :=
  if escape && (sep.isMarkup || ds.any isMarkup) then
    markup (sep.escaped.intercalate (ds.map escaped))
  else str (sep.text.intercalate (ds.map text))

def mapText (f : String → String) (d : Datum) : Datum :=
  d.like (f d.text)

end Datum

def capitalized (s : String) : String :=
  match s.toList with
  | [] => ""
  | c :: cs => String.ofList (Text.upperChars c ++ Text.lowerFrom [c] cs)

/--
Every word with a capital in front; blanks, dashes and opening brackets start words.
-/
def titled (s : String) : String :=
  String.ofList (go none s.toList)
where
  starts (c : Char) : Bool :=
    Text.isBlank c || c == '-' || c == '(' || c == '\x7b' || c == '[' || c == '<'
  /--
  `word` is what has been read of a word behind its first letter, last letter first.
  -/
  go : Option (List Char) → List Char → List Char
    | _, [] => []
    | word, c :: cs =>
      if starts c then c :: go none cs
      else match word with
        | none => Text.upperChars c ++ go (some []) cs
        | some before => Text.lowerChars before c cs ++ go (some (c :: before)) cs

/--
A text with the first occurrences of a part replaced, all of them where no number is given.
-/
def replaceText (count : Option Nat) (old new cs : List Char) : List Char :=
  if old.isEmpty then spread (count.getD (cs.length + 1)) cs
  else go (cs.length + 1) count cs
where
  spread : Nat → List Char → List Char
    | 0, cs => cs
    | _ + 1, [] => new
    | n + 1, c :: cs => new ++ c :: spread n cs
  go : Nat → Option Nat → List Char → List Char
    | 0, _, cs => cs
    | _, some 0, cs => cs
    | fuel + 1, count, cs =>
      match Text.cut? old cs with
      | some (before, rest) => before ++ new ++ go fuel (count.map (· - 1)) rest
      | none => cs

end Polyglot.Template
