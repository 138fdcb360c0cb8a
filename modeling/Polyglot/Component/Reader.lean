import Polyglot.Component.Document
import Polyglot.Component.Root
import Polyglot.Text.Character

/-!
Reading component documents: the attributes of an opening tag, and cutting a text into its top-level blocks.

A block reaches from its opening tag to the closing tag of the same name, in any letter case. In the
text of scripts and styles no tags are looked for; in every other block equal tags nest. Comments
between blocks are passed over.
-/

namespace Polyglot.Component

def isAttrNameChar (c : Char) : Bool :=
  !(Text.isBlank c || c == '=' || c == '/' || c == '>' || c == '"' || c == '\'')

def isBareValueChar (c : Char) : Bool :=
  !(Text.isBlank c || c == '"' || c == '\'' || c == '=' || c == '<' || c == '>' || c == '\x60')

/--
A value behind an equals sign, with what follows it: in quotes of either kind, or bare.
-/
def takeAttrValue? (cs : List Char) : Option (List Char × List Char) :=
  match Text.trimLeft cs with
  | '=' :: rest =>
    match Text.trimLeft rest with
    | '"' :: body => closed '"' body
    | '\'' :: body => closed '\'' body
    | body =>
      let bare := body.takeWhile isBareValueChar
      if bare.isEmpty then none else some (bare, body.dropWhile isBareValueChar)
  | _ => none
where
  closed (mark : Char) (body : List Char) : Option (List Char × List Char) :=
    match body.dropWhile (· != mark) with
    | _ :: rest => some (body.takeWhile (· != mark), rest)
    | [] => none

/--
The attributes in a text, in order. Characters that cannot start a name are passed over.
-/
def readAttributes (cs : List Char) : Attributes :=
  go (cs.length + 1) [] cs
where
  go : Nat → Attributes → List Char → Attributes
    | 0, as, _ => as
    | _, as, [] => as
    | fuel + 1, as, c :: cs =>
      if isAttrNameChar c then
        let name := String.ofList (c :: cs.takeWhile isAttrNameChar)
        let rest := cs.dropWhile isAttrNameChar
        match takeAttrValue? rest with
        | some (v, rest) => go fuel (as.set name (.text (String.ofList v))) rest
        | none => go fuel (as.set name .present) rest
      else go fuel as cs

inductive ReadError where
  | notText
  | unclosed (tag : String) (offset : Nat)
  | secondTemplate
  | secondScript
  deriving DecidableEq

def ReadError.message : ReadError → String
  | .notText => "component source must be a string"
  | .unclosed tag offset => "unclosed <" ++ tag ++ "> block at offset " ++ toString offset
  | .secondTemplate => "a component can only contain one <template> block"
  | .secondScript => "a component can only contain one <script> block"

/--
What follows a tag name up to the end of the tag, and the text behind it: nothing, or blanks and
any text without the end sign.
-/
def takeTagEnd? (cs : List Char) : Option (List Char × List Char) :=
  match cs with
  | '>' :: rest => some ([], rest)
  | c :: _ =>
    if Text.isBlank c then
      match cs.dropWhile (· != '>') with
      | _ :: rest => some (cs.takeWhile (· != '>'), rest)
      | [] => none
    else none
  | [] => none

/--
An opening tag with its attribute text, and what follows it.
-/
structure OpenTag where
  tag : List Char
  attrs : List Char
  rest : List Char

def openTagHere? : List Char → Option OpenTag
  | '<' :: cs =>
    match takeTagName? cs with
    | none => none
    | some (tag, rest) => (takeTagEnd? rest).map fun (attrs, rest) => ⟨tag, attrs, rest⟩
  | _ => none

def findOpenTag? : List Char → Option (List Char × OpenTag)
  | [] => none
  | c :: cs =>
    match openTagHere? (c :: cs) with
    | some t => some ([], t)
    | none => (findOpenTag? cs).map fun (before, t) => (c :: before, t)

def afterName? : List Char → List Char → Option (List Char)
  | [], cs => some cs
  | _ :: _, [] => none
  | n :: ns, c :: cs => if Text.sameLetter n c then afterName? ns cs else none

def closeTagHere? (tag : List Char) : List Char → Option (List Char)
  | '<' :: '/' :: cs =>
    match (afterName? tag cs).map Text.trimLeft with
    | some ('>' :: rest) => some rest
    | _ => none
  | _ => none

/--
The attribute text of an opening tag of the given name at the front, and the text behind it.
-/
def sameTagHere? (tag : List Char) : List Char → Option (List Char × List Char)
  | '<' :: cs => (afterName? tag cs).bind takeTagEnd?
  | _ => none

def endsWithSlash (attrs : List Char) : Bool :=
  (Text.trimRight attrs).getLast? == some '/'

def findRawClose? (tag : List Char) : List Char → Option (List Char × List Char)
  | [] => none
  | c :: cs =>
    match closeTagHere? tag (c :: cs) with
    | some rest => some ([], rest)
    | none => (findRawClose? tag cs).map fun (before, rest) => (c :: before, rest)

/--
The text up to the closing tag that matches `depth` open ones, and the text behind that tag. A tag
of the same name that closes itself opens nothing.
-/
def findNestedClose? (tag : List Char) : Nat → Nat → List Char → Option (List Char × List Char)
  | 0, _, _ => none
  | _, _, [] => none
  | fuel + 1, depth, c :: cs =>
    let go (depth : Nat) (rest : List Char) : Option (List Char × List Char) :=
      (findNestedClose? tag fuel depth rest).map fun (before, tail) =>
        ((c :: cs).take ((c :: cs).length - rest.length) ++ before, tail)
    match sameTagHere? tag (c :: cs) with
    | some (attrs, rest) => go (if endsWithSlash attrs then depth else depth + 1) rest
    | none =>
      match closeTagHere? tag (c :: cs) with
      | some rest => if depth ≤ 1 then some ([], rest) else go (depth - 1) rest
      | none =>
        (findNestedClose? tag fuel depth cs).map fun (before, tail) => (c :: before, tail)

def lowerTag (tag : List Char) : String :=
  Text.lower (String.ofList tag)

def isRawText (tag : List Char) : Bool :=
  lowerTag tag == "script" || lowerTag tag == "style"

def findClose? (tag text : List Char) : Option (List Char × List Char) :=
  if isRawText tag then findRawClose? tag text
  else findNestedClose? tag (text.length + 1) 1 text

/--
A block of a document as it is found: its tag as written, its content and where it starts.
-/
structure Block where
  tag : String
  content : String
  attrs : Attributes
  start : Nat
  deriving DecidableEq

def skipComment (cs : List Char) : List Char :=
  match Text.cut? ['-', '-', '>'] cs with
  | some (_, rest) => rest
  | none => []

def readBlocks : Nat → Nat → List Char → List Block × Option ReadError
  | 0, _, _ => ([], none)
  | fuel + 1, offset, cs =>
    match findOpenTag? cs with
    | none => ([], none)
    | some (before, t) =>
      match Text.cut? ['<', '!', '-', '-'] before with
      | some (text, _) =>
        let rest := skipComment (cs.drop (text.length + 4))
        readBlocks fuel (offset + (cs.length - rest.length)) rest
      | none =>
        let start := offset + before.length
        let tag := String.ofList t.tag
        let close (content attrs rest : List Char) : List Block × Option ReadError :=
          let block : Block := ⟨tag, String.ofList content, readAttributes attrs, start⟩
          let (more, error) := readBlocks fuel (offset + (cs.length - rest.length)) rest
          (block :: more, error)
        if endsWithSlash t.attrs then close [] (Text.trimRight t.attrs).dropLast t.rest
        else match findClose? t.tag t.rest with
          | some (content, rest) => close content t.attrs rest
          | none => ([], some (.unclosed tag start))

def Document.addBlock (d : Document) (b : Block) : Except ReadError Document :=
  let region (kind : RegionKind) : Region := ⟨kind, b.content, b.attrs, b.start⟩
  match lowerTag b.tag.toList with
  | "template" =>
    if d.template.isSome then .error .secondTemplate
    else .ok { d with template := some (region .template) }
  | "script" =>
    if d.script.isSome then .error .secondScript
    else .ok { d with script := some (region .script) }
  | "style" => .ok { d with styles := d.styles ++ [region .style] }
  | _ => .ok { d with custom := d.custom ++ [⟨b.tag, b.content, b.attrs, b.start⟩] }

/--
The document that a text holds. Of several faults the first in the text counts.
-/
def read (s : String) : Except ReadError Document :=
  let cs := s.toList
  let (blocks, error) := readBlocks (cs.length + 1) 0 cs
  match blocks.foldlM Document.addBlock {}, error with
  | .error e, _ => .error e
  | .ok _, some e => .error e
  | .ok d, none => .ok d

end Polyglot.Component
