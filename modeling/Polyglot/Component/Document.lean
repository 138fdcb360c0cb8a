/-!
Component documents: one template, one script and any number of styles in one text, with other
blocks kept beside them.
-/

namespace Polyglot.Component

/--
What an attribute of an opening tag says: a text, or only that it is there.
-/
inductive AttrValue where
  | present
  | text (s : String)
  deriving DecidableEq

abbrev Attributes := List (String × AttrValue)

namespace Attributes

/--
Gives a name its value. A name that is already there keeps its place.
-/
def set (as : Attributes) (name : String) (v : AttrValue) : Attributes :=
  match as with
  | [] => [(name, v)]
  | (n, w) :: rest => if n = name then (n, v) :: rest else (n, w) :: set rest name v

def get? (as : Attributes) (name : String) : Option AttrValue :=
  (as.find? fun a => a.1 == name).map (·.2)

def erase (as : Attributes) (name : String) : Attributes :=
  as.filter fun a => a.1 != name

/--
The text of an attribute; an attribute that is only present has none.
-/
def text? (as : Attributes) (name : String) : Option String :=
  match as.get? name with
  | some (.text s) => some s
  | _ => none

end Attributes

inductive RegionKind where
  | template
  | script
  | style
  deriving DecidableEq

def RegionKind.name : RegionKind → String
  | .template => "template"
  | .script => "script"
  | .style => "style"

/--
A compiled block: its content, the attributes of its opening tag and where that tag starts.
-/
structure Region where
  kind : RegionKind
  content : String
  attrs : Attributes
  start : Nat
  deriving DecidableEq

def Region.isScoped (r : Region) : Bool :=
  (r.attrs.get? "scoped").isSome

/--
A block of any other tag, which is kept and never compiled.
-/
structure CustomBlock where
  tag : String
  content : String
  attrs : Attributes
  start : Nat
  deriving DecidableEq

structure Document where
  template : Option Region := none
  script : Option Region := none
  styles : List Region := []
  custom : List CustomBlock := []
  scopeId : String := ""
  deriving DecidableEq

namespace Document

def insertByStart (r : Region) : List Region → List Region
  | [] => [r]
  | s :: rest => if r.start < s.start then r :: s :: rest else s :: insertByStart r rest

/--
The compiled blocks in the order of the text.
-/
def regions (d : Document) : List Region :=
  (d.template.toList ++ d.script.toList ++ d.styles).foldl (fun found r => insertByStart r found) []

/--
The document with every region taken for its image.
-/
def mapRegions (f : Region → Region) (d : Document) : Document :=
  { d with template := d.template.map f, script := d.script.map f, styles := d.styles.map f }

end Document

end Polyglot.Component
