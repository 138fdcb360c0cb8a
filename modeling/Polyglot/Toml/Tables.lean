import Polyglot.Value.Basic

/-!
The tables of a TOML document while it is read: which have been declared, and which can no longer
change.
-/

namespace Polyglot.Toml

abbrev Key := List String

/--
The entries of a document so far, the tables that have been declared, those that will count as
declared from the next header on, and the values that nothing may be added to.
-/
structure Tables where
  entries : Fields := []
  declared : List Key := []
  pending : List Key := []
  frozen : List Key := []

namespace Tables

def isDeclared (t : Tables) (key : Key) : Bool :=
  t.declared.contains key

def isFrozen (t : Tables) (key : Key) : Bool :=
  t.frozen.any fun f => f.isPrefixOf key

def forget (t : Tables) (key : Key) : Tables :=
  { t with
    declared := t.declared.filter fun k => !key.isPrefixOf k
    frozen := t.frozen.filter fun k => !key.isPrefixOf k }

def settle (t : Tables) : Tables :=
  { t with declared := t.declared ++ t.pending, pending := [] }

end Tables

/--
Changes the table under a key, made where there is none. The way to it leads through tables and, if
`lists` allows it, through the last elements of lists.
-/
def within? (lists : Bool) (f : Fields → Option Fields) : Key → Fields → Option Fields
  | [], es => f es
  | k :: ks, es =>
    match Value.find? es k with
    | none => (within? lists f ks []).map fun inner => es ++ [(.str k, .map inner)]
    | some (.map inner) => (within? lists f ks inner).map fun inner =>
        Value.insert es (.str k) (.map inner)
    | some (.list xs) =>
      if !lists then none
      else match xs.getLast? with
        | some (.map inner) => (within? lists f ks inner).map fun inner =>
            Value.insert es (.str k) (.list (xs.dropLast ++ [.map inner]))
        | _ => none
    | some _ => none

def addNew? (k : String) (v : Value) (es : Fields) : Option Fields :=
  if (Value.find? es k).isSome then none else some (es ++ [(.str k, v)])

def addTable? (k : String) (es : Fields) : Option Fields :=
  match Value.find? es k with
  | none => some (es ++ [(.str k, .list [.map []])])
  | some (.list xs) => some (Value.insert es (.str k) (.list (xs ++ [.map []])))
  | some _ => none

def isContainer : Value → Bool
  | .map _ | .list _ => true
  | _ => false

namespace Tables

def declare? (t : Tables) (key : Key) : Option Tables :=
  if t.isDeclared key || t.isFrozen key then none
  else (within? true some key t.entries).map fun entries =>
    { t with entries, declared := t.declared ++ [key] }

def append? (t : Tables) (key : Key) : Option Tables :=
  if t.isFrozen key then none
  else
    let t := t.forget key
    (within? true (addTable? (key.getLastD "")) key.dropLast t.entries).map fun entries =>
      { t with entries, declared := t.declared ++ [key] }

def passed (header key : Key) : List Key :=
  (List.range (key.length - 1)).map fun i => header ++ key.take (i + 1)

def assign? (t : Tables) (header key : Key) (v : Value) : Option Tables :=
  let way := passed header key
  let parent := header ++ key.dropLast
  if way.any t.isDeclared || (!parent.isEmpty && t.isFrozen parent) then none
  else (within? true (addNew? (key.getLastD "") v) parent t.entries).map fun entries =>
    { t with entries, pending := t.pending ++ way,
             frozen := if isContainer v then t.frozen ++ [header ++ key] else t.frozen }

end Tables

/--
The entries of an inline table and the keys in it that nothing may be added to.
-/
structure Inline where
  entries : Fields := []
  frozen : List Key := []

def Inline.assign? (t : Inline) (key : Key) (v : Value) : Option Inline :=
  if t.frozen.any fun f => f.isPrefixOf key then none
  else (within? false (addNew? (key.getLastD "") v) key.dropLast t.entries).map fun entries =>
    ⟨entries, if isContainer v then t.frozen ++ [key] else t.frozen⟩

end Polyglot.Toml
