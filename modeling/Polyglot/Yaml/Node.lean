import Polyglot.Table
import Polyglot.Yaml.Token

/-!
The nodes of a YAML document: trees with every tag spelled out and every alias replaced by what it
stands for.
-/

namespace Polyglot.Yaml

/--
A node without a tag of its own has none, apart from plain texts: their form decides what they are.
An alias inside the very node it stands for is a cycle.
-/
inductive Node where
  | plain (text : String)
  | text (tag : Option String) (text : String)
  | sequence (tag : Option String) (items : List Node)
  | mapping (tag : Option String) (pairs : List (Node × Node))
  | cycle

namespace Node

/--
What is left to read, and the nodes that have names so far. A name whose node is not complete has
none yet.
-/
structure Input where
  tokens : List Token
  anchors : Table String (Option Node) := {}
  handles : Table String String

abbrev Reading := StateT Input Option

def peek : Reading (Option Token) := do
  return (← get).tokens.head?

def skip : Reading Unit :=
  modify fun s => { s with tokens := s.tokens.tail }

def at_ (ts : List Token) : Reading Bool := do
  return (← peek).any ts.contains

def take (t : Token) : Reading Bool := do
  if ← at_ [t] then
    skip
    return true
  else return false

def expect (t : Token) : Reading Unit := do
  if !(← take t) then failure

def anchor? : Reading (Option String) := do
  match ← peek with
  | some (.anchor name) =>
    skip
    return some name
  | _ => return none

def tag? : Reading (Option String) := do
  match ← peek with
  | some (.tag none suffix) =>
    skip
    return some suffix
  | some (.tag (some handle) suffix) =>
    skip
    match (← get).handles.get? handle with
    | some start => return some (start ++ suffix)
    | none => failure
  | _ => return none

def properties : Reading (Option String × Option String) := do
  match ← anchor? with
  | some name => return (some name, ← tag?)
  | none =>
    let tag ← tag?
    return (← anchor?, tag)

def scalar (plain : Bool) (tag : Option String) (s : String) : Node :=
  match tag with
  | some "!" => .plain s
  | some tag => .text (some tag) s
  | none => if plain then .plain s else .text none s

def own (tag : Option String) : Option String :=
  if tag == some "!" then none else tag

def empty : Node := .plain ""

def pair (key v : Node) : Node :=
  .mapping none [(key, v)]

/--
Where a node stands: inside brackets, in a block, or behind a key, where the entries of a sequence
need not be indented.
-/
inductive Place where
  | flow
  | block
  | behindKey
  deriving DecidableEq

mutual

def node (place : Place) : Nat → Reading Node
  | 0 => failure
  | fuel + 1 => do
    match ← peek with
    | some (.alias name) =>
      skip
      match (← get).anchors.get? name with
      | some n => return n.getD .cycle
      | none => failure
    | _ =>
      let (name, tag) ← properties
      if let some name := name then
        if (← get).anchors.has name then failure
        modify fun s => { s with anchors := s.anchors.set name none }
      let n ← content place fuel (name.isSome || tag.isSome) tag
      if let some name := name then
        modify fun s => { s with anchors := s.anchors.set name (some n) }
      return n

def content (place : Place) : Nat → Bool → Option String → Reading Node
  | 0, _, _ => failure
  | fuel + 1, marked, tag => do
    match ← peek with
    | some (.scalar s isPlain) =>
      skip
      return scalar isPlain tag s
    | some .flowSequenceStart =>
      skip
      return .sequence (own tag) (← flowEntries true fuel)
    | some .flowMappingStart =>
      skip
      return .mapping (own tag) (← flowPairs true fuel)
    | some .sequenceStart =>
      if place = .flow then failure
      skip
      return .sequence (own tag) (← entries .blockEnd [.entry, .blockEnd] fuel)
    | some .mappingStart =>
      if place = .flow then failure
      skip
      return .mapping (own tag) (← pairs fuel)
    | t =>
      if place = .behindKey && t == some .entry then
        return .sequence (own tag) (← looseEntries fuel)
      else if marked then return scalar true tag ""
      else failure

def nodeOr (place : Place) (stops : List Token) : Nat → Reading Node
  | 0 => failure
  | fuel + 1 => do if ← at_ stops then return empty else node place fuel

def entries (close : Token) (stops : List Token) : Nat → Reading (List Node)
  | 0 => failure
  | fuel + 1 => do
    if ← take .entry then
      let n ← nodeOr .block stops fuel
      return n :: (← entries close stops fuel)
    else
      expect close
      return []

def looseEntries : Nat → Reading (List Node)
  | 0 => failure
  | fuel + 1 => do
    if ← take .entry then
      let n ← nodeOr .block [.entry, .key, .value, .blockEnd] fuel
      return n :: (← looseEntries fuel)
    else return []

def pairs : Nat → Reading (List (Node × Node))
  | 0 => failure
  | fuel + 1 => do
    let stops : List Token := [.key, .value, .blockEnd]
    if ← take .key then
      let k ← nodeOr .behindKey stops fuel
      let v ← if ← take .value then nodeOr .behindKey stops fuel else pure empty
      return (k, v) :: (← pairs fuel)
    else
      expect .blockEnd
      return []

def flowEntries (first : Bool) : Nat → Reading (List Node)
  | 0 => failure
  | fuel + 1 => do
    if ← take .flowSequenceEnd then return []
    if !first then expect .flowEntry
    if ← take .key then
      let stops : List Token := [.flowEntry, .flowSequenceEnd]
      let k ← nodeOr .flow (.value :: stops) fuel
      let v ← if ← take .value then nodeOr .flow stops fuel else pure empty
      return pair k v :: (← flowEntries false fuel)
    else if ← take .flowSequenceEnd then return []
    else
      let n ← node .flow fuel
      return n :: (← flowEntries false fuel)

def flowPairs (first : Bool) : Nat → Reading (List (Node × Node))
  | 0 => failure
  | fuel + 1 => do
    if ← take .flowMappingEnd then return []
    if !first then expect .flowEntry
    if ← take .key then
      let stops : List Token := [.flowEntry, .flowMappingEnd]
      let k ← nodeOr .flow (.value :: stops) fuel
      let v ← if ← take .value then nodeOr .flow stops fuel else pure empty
      return (k, v) :: (← flowPairs false fuel)
    else if ← take .flowMappingEnd then return []
    else
      let n ← node .flow fuel
      return (n, empty) :: (← flowPairs false fuel)

end

def knownHandles : List (String × String) :=
  [("!", "!"), ("!!", "tag:yaml.org,2002:")]

/--
The tag handles that the directives of a document define, each at most once. The version has to be
one.
-/
def directives : Nat → Bool → Table String String → Reading (Table String String)
  | 0, _, _ => failure
  | fuel + 1, versioned, own => do
    match ← peek with
    | some (.version major) =>
      skip
      if versioned || major != 1 then failure
      directives fuel true own
    | some (.tagHandle handle start) =>
      skip
      if own.has handle then failure
      directives fuel versioned (own.set handle start)
    | some .otherDirective =>
      skip
      directives fuel versioned own
    | _ => return knownHandles.foldl (fun t (h, s) => if t.has h then t else t.set h s) own

def isDirective : Token → Bool
  | .version _ | .tagHandle .. | .otherDirective => true
  | _ => false

/--
The only document of a text; a text may also have none.
-/
def document : Reading (Option Node) := do
  let tokens := (← get).tokens
  let fuel := 3 * tokens.length + 8
  match tokens with
  | [] => return none
  | t :: _ =>
    let n ←
      if isDirective t || t = .documentStart then do
        let handles ← directives fuel false {}
        modify fun s => { s with handles }
        expect .documentStart
        match ← peek with
        | none => pure empty
        | some t =>
          if isDirective t || t = .documentStart || t = .documentEnd then pure empty
          else node .block fuel
      else node .block fuel
    if (← get).tokens.all (· = .documentEnd) then return some n else failure

def ofTokens? (tokens : List Token) : Option (Option Node) :=
  (document.run { tokens, handles := ⟨knownHandles⟩ }).map (·.1)

end Node

end Polyglot.Yaml
