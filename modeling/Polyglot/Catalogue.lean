import Polyglot.Table
import Polyglot.Text.Character
import Polyglot.Value.Basic

/-!
Catalogues: classes under names. Names are kept without blank ends and in small letters. A name
stays with its first class unless a later one is said to take its place.
-/

namespace Polyglot

/--
A class: which one it is, what it is called, the module it comes from, and which classes are above it. Two
classes may be called the same.
-/
structure Class where
  serial : Nat
  name : String
  module : String
  ancestors : List Nat
  deriving DecidableEq

namespace Class

def qualified (c : Class) : String :=
  c.module ++ "." ++ c.name

def extends? (c base : Class) : Bool :=
  c.serial = base.serial || c.ancestors.contains base.serial

end Class

structure Catalogue where
  title : String
  base : Option Class := none
  classes : Table String Class := {}

inductive CatalogueError where
  | titleMissing
  | nameNotText (type : String)
  | nameBlank
  | notClass (title name type : String)
  | notBelow (title : String) (c base : Class)
  | taken (title name : String) (by_ : Class)
  | missing (title name : String) (known : List String)
  deriving DecidableEq

def CatalogueError.message : CatalogueError → String
  | .titleMissing => "namespace must be a non-empty string"
  | .nameNotText type => "registry name must be str, got " ++ type
  | .nameBlank => "registry name must be non-empty after strip()"
  | .notClass title name type =>
    "[" ++ title ++ "] cannot register non-class for name '" ++ name ++ "': got " ++ type
  | .notBelow title c base =>
    "[" ++ title ++ "] class " ++ c.qualified ++ " must be a subclass of " ++ base.qualified
  | .taken title name c =>
    "[" ++ title ++ "] name '" ++ name ++ "' already registered: " ++ c.qualified
  | .missing title name known =>
    "[" ++ title ++ "] name '" ++ name ++ "' not found. available=[" ++ ", ".intercalate known ++ "]"

namespace Catalogue

/--
An empty catalogue under a title that is not blank.
-/
def new (title : Value) (base : Option Class) : Except CatalogueError Catalogue :=
  match title with
  | .str s =>
    let t := Text.trimmed s
    if t.isEmpty then .error .titleMissing else .ok { title := t, base }
  | _ => .error .titleMissing

def nameOf : Value → Except CatalogueError String
  | .str s =>
    let t := Text.trimmed s
    if t.isEmpty then .error .nameBlank else .ok (Text.lower t)
  | v => .error (.nameNotText v.typeName)

/--
A class that may stand under a name of this catalogue; anything else is refused by its type.
-/
def accept? (k : Catalogue) (name : String) (c : Except String Class) :
    Except CatalogueError Class :=
  match c, k.base with
  | .error type, _ => .error (.notClass k.title name type)
  | .ok c, none => .ok c
  | .ok c, some base => if c.extends? base then .ok c else .error (.notBelow k.title c base)

/--
A name that a class is to come for, and whether it may take the place of another one.
-/
structure Slot where
  name : String
  replace : Bool
  deriving DecidableEq

def slot (name : Value) (replace : Bool) : Except CatalogueError Slot :=
  (nameOf name).map (⟨·, replace⟩)

/--
Puts a class where its name says. What stands there by then counts, not what stood there when the name was
given.
-/
def enter (k : Catalogue) (s : Slot) (c : Except String Class) :
    Except CatalogueError (Catalogue × Class) := do
  let c ← k.accept? s.name c
  match k.classes.get? s.name with
  | some old =>
    if s.replace || old.serial = c.serial then return ({ k with classes := k.classes.set s.name c }, c)
    else .error (.taken k.title s.name old)
  | none => return ({ k with classes := k.classes.set s.name c }, c)

def register (k : Catalogue) (name : Value) (c : Except String Class) (replace : Bool) :
    Except CatalogueError (Catalogue × Class) := do
  k.enter (← slot name replace) c

def get? (k : Catalogue) (name : Value) : Except CatalogueError (Option Class) :=
  (nameOf name).map k.classes.get?

def sortedNames (k : Catalogue) : List String :=
  k.classes.sorted.map (·.1)

def require (k : Catalogue) (name : Value) : Except CatalogueError Class := do
  let n ← nameOf name
  match k.classes.get? n with
  | some c => return c
  | none => .error (.missing k.title n k.sortedNames)

/--
Whether a name is in the catalogue. What is no text is not; a blank text is refused.
-/
def contains (k : Catalogue) : Value → Except CatalogueError Bool
  | .str s => (nameOf (.str s)).map k.classes.has
  | _ => .ok false

end Catalogue

end Polyglot
