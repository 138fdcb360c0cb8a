import Polyglot.Digest
import Polyglot.Yaml.Node
import Polyglot.Yaml.Plain

/-!
The value of a YAML text.
-/

namespace Polyglot.Yaml

def tagStart : String := "tag:yaml.org,2002:"

def coreName? (tag : String) : Option String :=
  if tag.startsWith tagStart then some (String.ofList (tag.toList.drop tagStart.length)) else none

def kindNames : List (String × Kind) :=
  [("null", .null), ("bool", .bool), ("int", .int), ("float", .float), ("timestamp", .moment),
    ("str", .text)]

def textValue (tag s : String) : Except DataError Value :=
  match coreName? tag with
  | none => .error .malformed
  | some "binary" =>
    if s.toList.all (·.toNat < 128) then
      match Digest.Base64.decode? s.toList with
      | some bytes => .ok (.bytes bytes)
      | none => .error .malformed
    else .error .malformed
  | some name =>
    match kindNames.lookup name with
    | some k => k.value s
    | none => .error .malformed

namespace Node

def isMerge : Node → Bool
  | plain s => kindOf s = .merge
  | text tag _ => tag == some (tagStart ++ "merge")
  | _ => false

def asKey : Node → Node
  | plain s => if kindOf s = .default then text none s else plain s
  | n => n

/--
The pairs that a mapping takes over from what stands behind a merge key; of several mappings the
first one counts.
-/
def merged? : Node → Option (List (Node × Node))
  | mapping _ pairs => some pairs
  | cycle => some []
  | sequence _ items => (items.mapM own?).map fun lists => lists.reverse.flatten
  | _ => none
where
  own? : Node → Option (List (Node × Node))
    | mapping _ pairs => some pairs
    | _ => none

/--
Resolves the merge keys of pairs: what is taken over comes in front of the own pairs.
-/
def mergePairs (pairs : List (Node × Node)) : Option (List (Node × Node)) := do
  let taken ← (pairs.filter (·.1.isMerge)).mapM fun p => p.2.merged?
  return taken.flatten ++ (pairs.filter (!·.1.isMerge)).map fun (k, v) => (k.asKey, v)

def flatten : Node → Option Node
  | sequence tag items => (all items).map (.sequence tag)
  | mapping tag pairs => do
    let pairs ← both pairs
    return .mapping tag (← mergePairs pairs)
  | n => some n
where
  all : List Node → Option (List Node)
    | [] => some []
    | n :: ns => do
      let n ← flatten n
      return n :: (← all ns)
  both : List (Node × Node) → Option (List (Node × Node))
    | [] => some []
    | (k, v) :: ps => do
      let k ← flatten k
      let v ← flatten v
      return (k, v) :: (← both ps)

def tuple? : Value → Option Value
  | .map [(k, v)] => some (.tuple [k, v])
  | _ => none

def listOf (tag : Option String) (items : List Value) : Except DataError Value :=
  let name := match tag with
    | none => some "seq"
    | some tag => coreName? tag
  match name with
  | some "seq" => .ok (.list items)
  | some "omap" | some "pairs" =>
    match items.mapM tuple? with
    | some xs => .ok (.list xs)
    | none => .error .malformed
  | _ => .error .malformed

def mapOf (tag : Option String) (entries : Fields) : Except DataError Value :=
  let name := match tag with
    | none => some "map"
    | some tag => coreName? tag
  if entries.all (·.1.isHashable) then
    match name with
    | some "map" => .ok (.map (Value.ofEntries entries))
    | some "set" => .ok (.set ((Value.ofEntries entries).map (·.1)))
    | _ => .error .malformed
  else .error .malformed

def value : Node → Except DataError Value
  | plain s => (kindOf s).value s
  | text none s => .ok (.str s)
  | text (some tag) s => textValue tag s
  | sequence tag items => do listOf tag (← all items)
  | mapping tag pairs => do mapOf tag (← both pairs)
  | cycle => fault .value
where
  all : List Node → Except DataError (List Value)
    | [] => .ok []
    | n :: ns => do
      let v ← value n
      return v :: (← all ns)
  both : List (Node × Node) → Except DataError Fields
    | [] => .ok []
    | (k, v) :: ps => do
      let k ← value k
      let v ← value v
      return (k, v) :: (← both ps)

end Node

/--
The value of a text; one without a document stands for nothing.
-/
def read (s : String) : Except DataError Value :=
  match tokens? s with
  | none => .error .malformed
  | some tokens =>
    match Node.ofTokens? tokens with
    | none => .error .malformed
    | some none => .ok .null
    | some (some n) =>
      match n.flatten with
      | some n => n.value
      | none => .error .malformed

end Polyglot.Yaml
