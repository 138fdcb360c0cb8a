import Polyglot.Scalar
import Polyglot.Xml.Reader

/-!
XML trees as plain values.

An element with neither children nor kept attributes is its text. Any other is a mapping of its
attributes, under marked names, its children by tag, those of one tag in a list, and its own text
under a key of its own.
-/

namespace Polyglot.Xml

structure Options where
  attributeMark : Value := .str "@_"
  textKey : Value := .str "#text"
  parseValues : Bool := true
  ignoreAttributes : Bool := false

inductive MappingError where
  | markNotText
  | keyNotHashable
  | integerTooLong
  deriving DecidableEq

namespace Mapping

def convert (o : Options) (text : List Char) : Except MappingError Value :=
  if o.parseValues then
    match Scalar.read? text with
    | some v => .ok v
    | none => .error .integerTooLong
  else .ok (.str (String.ofList (Text.trim text)))

def attributes (o : Options) : List (String × String) → Except MappingError (List (Value × Value))
  | [] => .ok []
  | (name, text) :: rest =>
    match o.attributeMark with
    | .str mark =>
      match convert o text.toList, attributes o rest with
      | .ok v, .ok more => .ok ((.str (mark ++ name), v) :: more)
      | .error e, _ => .error e
      | _, .error e => .error e
    | _ => .error .markNotText

/--
A mapping with one more child. A second child of the same tag makes a list of both.
-/
def addChild (entries : List (Value × Value)) (tag : String) (v : Value) : List (Value × Value) :=
  match Value.find? entries tag with
  | none => entries ++ [(.str tag, v)]
  | some (.list vs) => Value.insert entries (.str tag) (.list (vs ++ [v]))
  | some w => Value.insert entries (.str tag) (.list [w, v])

def addText (o : Options) (entries : List (Value × Value)) (text : List Char) :
    Except MappingError (List (Value × Value)) :=
  if Text.allBlank text then .ok entries
  else match convert o (Text.trim text) with
    | .error e => .error e
    | .ok v =>
      if o.textKey.isHashable then .ok (Value.insert entries o.textKey v)
      else .error .keyNotHashable

def ofElement (o : Options) : Element → Except MappingError Value
  | .mk _ attrs text children =>
    match if o.ignoreAttributes then .ok [] else attributes o attrs with
    | .error e => .error e
    | .ok kept =>
      if children.isEmpty && kept.isEmpty then
        if Text.allBlank text then .ok (.str "") else convert o (Text.trim text)
      else
        match ofChildren (Value.ofEntries kept) children with
        | .error e => .error e
        | .ok entries => (addText o entries text).map .map
where
  ofChildren (entries : List (Value × Value)) :
      List (Element × List Char) → Except MappingError (List (Value × Value))
    | [] => .ok entries
    | (e, _) :: rest =>
      match ofElement o e with
      | .error err => .error err
      | .ok v => ofChildren (addChild entries e.tag v) rest

end Mapping

/--
A document as a mapping from the tag of its root to the root's value.
-/
def toValue (o : Options) (root : Element) : Except MappingError Value :=
  (Mapping.ofElement o root).map fun v => .map [(.str root.tag, v)]

end Polyglot.Xml
