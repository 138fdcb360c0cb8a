import Polyglot.Text.Character
import Polyglot.Text.Search

/-!
Trees of XML elements, and reading documents that are well formed and whose names obey their namespaces.
Comments and instructions are left out of a tree, and text that they part is one text. A name in a namespace
is written with the namespace in braces before it. Of a document type only the entities declared in the text
are used.
-/

namespace Polyglot.Xml

/--
An element: its name, its attributes, the text before its first child, and its children, each with
the text that follows it.
-/
inductive Element where
  | mk (tag : String) (attrs : List (String × String)) (text : List Char)
    (children : List (Element × List Char))

namespace Element

def tag : Element → String
  | mk t _ _ _ => t

def attrs : Element → List (String × String)
  | mk _ as _ _ => as

def text : Element → List Char
  | mk _ _ t _ => t

def children : Element → List (Element × List Char)
  | mk _ _ _ cs => cs

end Element

/--
What names and references mean at a place: the namespace of each short name, the shortest for names
without one, and the texts of entities.
-/
structure Scope where
  spaces : List (String × String)
  entities : List (String × List Char)

def xmlSpace : String := "http://www.w3.org/XML/1998/namespace"

def xmlnsSpace : String := "http://www.w3.org/2000/xmlns/"

def Scope.initial : Scope :=
  ⟨[("xml", xmlSpace)],
    [("lt", ['<']), ("gt", ['>']), ("amp", ['&']), ("quot", ['"']), ("apos", ['\''])]⟩

def isSpace (c : Char) : Bool :=
  c == ' ' || c == '\t' || c == '\n' || c == '\r'

def skipSpace (cs : List Char) : List Char :=
  cs.dropWhile isSpace

def isChar (c : Char) : Bool :=
  (32 ≤ c.toNat && c.toNat != 0xfffe && c.toNat != 0xffff) || c == '\t' || c == '\n' || c == '\r'

def isNameStart (c : Char) : Bool :=
  c == '_' || (Text.isWord c && !Text.isDigit c)

def isNameChar (c : Char) : Bool :=
  isNameStart c || Text.isDigit c || c == '-' || c == '.' || c == '·' || c.toNat == 0x301

def takeName? : List Char → Option (List Char × List Char)
  | [] => none
  | c :: cs =>
    if isNameStart c then some (c :: cs.takeWhile isNameChar, cs.dropWhile isNameChar) else none

/--
A name that may have a short name of a namespace before a colon.
-/
structure QName where
  space : Option String
  name : String
  deriving DecidableEq

def takeQName? (cs : List Char) : Option (QName × List Char) := do
  let (first, rest) ← takeName? cs
  match rest with
  | ':' :: more =>
    let (name, rest) ← takeName? more
    if rest.head? == some ':' then none
    else return (⟨some (String.ofList first), String.ofList name⟩, rest)
  | _ => return (⟨none, String.ofList first⟩, rest)

def Scope.space? (s : Scope) (short : String) : Option String :=
  (s.spaces.find? fun e => e.1 == short).map (·.2)

/--
The full name of an element; the namespace of names without a short one applies.
-/
def Scope.elementName? (s : Scope) (q : QName) : Option String :=
  match q.space with
  | some short => (s.space? short).map fun uri => "\x7b" ++ uri ++ "\x7d" ++ q.name
  | none => match s.space? "" with
    | some uri => some (if uri.isEmpty then q.name else "\x7b" ++ uri ++ "\x7d" ++ q.name)
    | none => some q.name

def Scope.attributeName? (s : Scope) (q : QName) : Option String :=
  match q.space with
  | none => some q.name
  | some _ => s.elementName? q

def digitsValue? (base : Nat) (cs : List Char) : Option Nat :=
  if cs.isEmpty then none
  else cs.foldlM (fun n c =>
    let d := if '0' ≤ c && c ≤ '9' then c.toNat - 48
      else if 'a' ≤ c && c ≤ 'f' then c.toNat - 87
      else if 'A' ≤ c && c ≤ 'F' then c.toNat - 55 else base
    if d < base then some (n * base + d) else none) 0

def codeChar? (cs : List Char) : Option Char := do
  let n ← match cs with
    | 'x' :: ds => digitsValue? 16 ds
    | ds => digitsValue? 10 ds
  if n < 0x110000 && !(0xd800 ≤ n && n < 0xe000) && isChar (Char.ofNat n) then
    return Char.ofNat n
  else none

/--
A reference behind its ampersand: a character, or the name of an entity; and what follows it.
-/
def takeReference? (cs : List Char) : Option (Sum Char String × List Char) :=
  match cs with
  | '#' :: rest =>
    match rest.dropWhile (· != ';') with
    | _ :: tail => (codeChar? (rest.takeWhile (· != ';'))).map fun c => (.inl c, tail)
    | [] => none
  | _ =>
    match takeName? cs with
    | some (name, ';' :: tail) => some (.inr (String.ofList name), tail)
    | _ => none

def Scope.entity? (s : Scope) (name : String) : Option (List Char) :=
  (s.entities.find? fun e => e.1 == name).map (·.2)

def isBuiltin (name : String) : Bool :=
  ["lt", "gt", "amp", "quot", "apos"].contains name

/--
The value of an attribute from its written text: references resolved, line ends and tabs as blanks.
-/
def attributeText? (s : Scope) : Nat → List Char → Option (List Char)
  | 0, _ => none
  | _, [] => some []
  | fuel + 1, '&' :: cs => do
    let (found, rest) ← takeReference? cs
    let tail ← attributeText? s fuel rest
    match found with
    | .inl c => return c :: tail
    | .inr name =>
      let text ← s.entity? name
      if isBuiltin name then return text ++ tail
      else return (← attributeText? s fuel text) ++ tail
  | fuel + 1, c :: cs =>
    if c == '<' || !isChar c then none
    else (attributeText? s fuel cs).map ((if isSpace c then ' ' else c) :: ·)

/--
The written attributes of an opening tag up to its end, whether it closes itself, and the rest.
-/
def takeAttributes? : Nat → List Char → Option (List (QName × List Char) × Bool × List Char)
  | 0, _ => none
  | fuel + 1, cs =>
    match skipSpace cs with
    | '>' :: rest => some ([], false, rest)
    | '/' :: '>' :: rest => some ([], true, rest)
    | body =>
      if body.length == cs.length then none
      else do
        let (q, rest) ← takeQName? body
        match skipSpace rest with
        | '=' :: rest =>
          match skipSpace rest with
          | mark :: rest =>
            if mark != '"' && mark != '\'' then none
            else match rest.dropWhile (· != mark) with
              | _ :: tail =>
                let (more, closed, tail) ← takeAttributes? fuel tail
                return ((q, rest.takeWhile (· != mark)) :: more, closed, tail)
              | [] => none
          | [] => none
        | _ => none

def Scope.declare? (s : Scope) (q : QName) (uri : String) : Option Scope :=
  match q.space, q.name with
  | none, _ =>
    if uri == xmlSpace || uri == xmlnsSpace then none
    else some { s with spaces := ("", uri) :: s.spaces }
  | some _, short =>
    if short == "xmlns" || uri.isEmpty || uri == xmlnsSpace then none
    else if (short == "xml") != (uri == xmlSpace) then none
    else some { s with spaces := (short, uri) :: s.spaces }

def isDeclaration (q : QName) : Bool :=
  (q.space.isNone && q.name == "xmlns") || q.space == some "xmlns"

/--
The scope inside a tag and its attributes by their full names; none may be given twice.
-/
def enter? (s : Scope) (written : List (QName × List Char)) :
    Option (Scope × List (String × String)) := do
  let values ← written.mapM fun (q, text) =>
    (attributeText? s (text.length + 1000) text).map fun v => (q, String.ofList v)
  let inner ← (values.filter fun a => isDeclaration a.1).foldlM
    (fun s (q, uri) => s.declare? q uri) s
  let attrs ← (values.filter fun a => !isDeclaration a.1).mapM fun (q, v) =>
    (inner.attributeName? q).map fun n => (n, v)
  let names := values.map fun a => (a.1.space.getD "", a.1.name)
  let full := attrs.map (·.1)
  if names.eraseDups.length != names.length || full.eraseDups.length != full.length then none
  else return (inner, attrs)

/--
The text behind a comment whose opening mark has been read; two hyphens may stand only at its end.
-/
def skipComment? (cs : List Char) : Option (List Char) :=
  match Text.cut? ['-', '-'] cs with
  | some (body, '>' :: rest) => if body.all isChar then some rest else none
  | _ => none

def skipInstruction? (cs : List Char) : Option (List Char) := do
  let (name, rest) ← takeName? cs
  if (String.ofList name).toLower == "xml" then none
  else
    let (body, tail) ← Text.cut? ['?', '>'] rest
    if body.all isChar && (body.isEmpty || body.head?.any isSpace) then return tail else none

/--
What stands inside an element: text and elements in turn.
-/
inductive Item where
  | text (cs : List Char)
  | element (e : Element)

def assemble : List Item → List Char × List (Element × List Char)
  | [] => ([], [])
  | .text cs :: items =>
    let (text, children) := assemble items
    (cs ++ text, children)
  | .element e :: items =>
    let (tail, children) := assemble items
    ([], (e, tail) :: children)

mutual

def takeElement? : Nat → Scope → List Char → Option (Element × List Char)
  | 0, _, _ => none
  | fuel + 1, s, cs => do
    let (q, rest) ← takeQName? cs
    let (written, closed, rest) ← takeAttributes? (rest.length + 1) rest
    let (inner, attrs) ← enter? s written
    let tag ← inner.elementName? q
    if closed then return (.mk tag attrs [] [], rest)
    else
      let (items, rest) ← takeItems? fuel inner rest
      match rest with
      | '<' :: '/' :: rest =>
        let (end_, rest) ← takeQName? rest
        match skipSpace rest with
        | '>' :: tail =>
          if end_ == q then
            let (text, children) := assemble items
            return (.mk tag attrs text children, tail)
          else none
        | _ => none
      | _ => none

def takeItems? : Nat → Scope → List Char → Option (List Item × List Char)
  | 0, _, _ => none
  | _, _, [] => some ([], [])
  | fuel + 1, s, cs =>
    match cs with
    | '<' :: '/' :: _ => some ([], cs)
    | '<' :: '!' :: '-' :: '-' :: rest => do takeItems? fuel s (← skipComment? rest)
    | '<' :: '!' :: '[' :: 'C' :: 'D' :: 'A' :: 'T' :: 'A' :: '[' :: rest => do
      let (body, tail) ← Text.cut? [']', ']', '>'] rest
      if !body.all isChar then none
      else
        let (items, rest) ← takeItems? fuel s tail
        return (.text body :: items, rest)
    | '<' :: '?' :: rest => do takeItems? fuel s (← skipInstruction? rest)
    | '<' :: rest => do
      let (e, rest) ← takeElement? fuel s rest
      let (items, rest) ← takeItems? fuel s rest
      return (.element e :: items, rest)
    | '&' :: rest => do
      let (found, rest) ← takeReference? rest
      match found with
      | .inl c =>
        let (items, rest) ← takeItems? fuel s rest
        return (.text [c] :: items, rest)
      | .inr name =>
        let text ← s.entity? name
        if isBuiltin name then
          let (items, rest) ← takeItems? fuel s rest
          return (.text text :: items, rest)
        else
          let hidden := { s with entities := s.entities.filter fun e => e.1 != name }
          let (inner, left) ← takeItems? fuel hidden text
          if !left.isEmpty then none
          else
            let (items, rest) ← takeItems? fuel s rest
            return (inner ++ items, rest)
    | _ =>
      let plain (c : Char) : Bool := c != '<' && c != '&'
      let text := cs.takeWhile plain
      if Text.contains [']', ']', '>'] text || !text.all isChar then none
      else do
        let (items, rest) ← takeItems? fuel s (cs.dropWhile plain)
        return (.text text :: items, rest)

end

/--
Splits a declaration in a document type behind its end sign; quoted texts hide the sign.
-/
def takeDeclaration? : Nat → List Char → Option (List Char × List Char)
  | 0, _ => none
  | _, [] => none
  | _, '>' :: rest => some ([], rest)
  | fuel + 1, c :: cs =>
    if c == '"' || c == '\'' then
      match cs.dropWhile (· != c) with
      | _ :: rest => (takeDeclaration? fuel rest).map fun (d, tail) =>
          (c :: cs.takeWhile (· != c) ++ c :: d, tail)
      | [] => none
    else (takeDeclaration? fuel cs).map fun (d, tail) => (c :: d, tail)

/--
References by number in a declared text; other references stay as they are.
-/
def resolveCodes? : Nat → List Char → Option (List Char)
  | 0, _ => none
  | _, [] => some []
  | fuel + 1, '&' :: '#' :: cs => do
    let (found, rest) ← takeReference? ('#' :: cs)
    match found with
    | .inl c => return c :: (← resolveCodes? fuel rest)
    | .inr _ => none
  | fuel + 1, c :: cs => (resolveCodes? fuel cs).map (c :: ·)

def entity? (declaration : List Char) : Option (String × List Char) := do
  let rest ← Text.after? "ENTITY".toList declaration
  let (name, rest) ← takeName? (skipSpace rest)
  match skipSpace rest with
  | mark :: body =>
    if mark == '"' || mark == '\'' then
      let text := body.takeWhile (· != mark)
      return (String.ofList name, ← resolveCodes? (text.length + 1) text)
    else none
  | [] => none

def isKnownDeclaration (d : List Char) : Bool :=
  ["ENTITY", "ELEMENT", "ATTLIST", "NOTATION"].any fun w =>
    match Text.after? w.toList d with
    | some rest => rest.head?.any isSpace
    | none => false

def takeSubset? : Nat → Scope → List Char → Option (Scope × List Char)
  | 0, _, _ => none
  | fuel + 1, s, cs =>
    match skipSpace cs with
    | ']' :: rest => some (s, rest)
    | '<' :: '!' :: '-' :: '-' :: rest => do takeSubset? fuel s (← skipComment? rest)
    | '<' :: '?' :: rest => do takeSubset? fuel s (← skipInstruction? rest)
    | '<' :: '!' :: rest => do
      let (d, tail) ← takeDeclaration? (rest.length + 1) rest
      if !isKnownDeclaration d then none
      else match entity? d with
        | some (name, text) =>
          let known := (s.entity? name).isSome
          takeSubset? fuel (if known then s else { s with entities := s.entities ++ [(name, text)] })
            tail
        | none => takeSubset? fuel s tail
    | _ => none

def takeQuoted? (cs : List Char) : Option (List Char) :=
  match skipSpace cs with
  | mark :: rest =>
    if mark == '"' || mark == '\'' then
      match rest.dropWhile (· != mark) with
      | _ :: tail => some tail
      | [] => none
    else none
  | [] => none

def takeDoctype? (s : Scope) (cs : List Char) : Option (Scope × List Char) := do
  if !cs.head?.any isSpace then none
  else
    let (_, rest) ← takeQName? (skipSpace cs)
    let body := skipSpace rest
    let body ← match Text.after? "SYSTEM".toList body, Text.after? "PUBLIC".toList body with
      | some r, _ => takeQuoted? r
      | _, some r => (takeQuoted? r).bind takeQuoted?
      | _, _ => some body
    let (s, body) ← match skipSpace body with
      | '[' :: r => takeSubset? (r.length + 1) s r
      | r => some (s, r)
    match skipSpace body with
    | '>' :: rest => return (s, rest)
    | _ => none

/--
Everything that may stand before and after the root element. `doctype` tells whether a document type
may still come.
-/
def skipMisc? : Nat → Bool → Scope → List Char → Option (Scope × List Char)
  | 0, _, _, _ => none
  | fuel + 1, doctype, s, cs =>
    match skipSpace cs with
    | '<' :: '!' :: '-' :: '-' :: rest => do skipMisc? fuel doctype s (← skipComment? rest)
    | '<' :: '?' :: rest => do skipMisc? fuel doctype s (← skipInstruction? rest)
    | '<' :: '!' :: rest =>
      match Text.after? "DOCTYPE".toList rest with
      | some rest =>
        if doctype then do
          let (s, rest) ← takeDoctype? s rest
          skipMisc? fuel false s rest
        else none
      | none => none
    | rest => some (s, rest)

def skipField? (name : String) (cs : List Char) : Option (List Char × List Char) := do
  if !cs.head?.any isSpace then none
  else
    let rest ← Text.after? name.toList (skipSpace cs)
    match skipSpace rest with
    | '=' :: rest =>
      let value := skipSpace rest
      let tail ← takeQuoted? value
      return ((value.drop 1).take (value.length - tail.length - 2), tail)
    | _ => none

def isLabel (cs : List Char) : Bool :=
  cs.all fun c => Text.isAsciiLetter c || Text.isAsciiDigit c || c == '.' || c == '_' || c == '-'

def isEncodingName (cs : List Char) : Bool :=
  cs.head?.any Text.isAsciiLetter && isLabel cs

def skipXmlDeclaration? (cs : List Char) : Option (List Char) := do
  let (version, rest) ← skipField? "version" cs
  if !isLabel version then none
  else
    let rest ← match skipField? "encoding" rest with
      | some (name, r) => if isEncodingName name then some r else none
      | none => some rest
    let rest ← match skipField? "standalone" rest with
      | some (v, r) => if v == "yes".toList || v == "no".toList then some r else none
      | none => some rest
    Text.after? ['?', '>'] (skipSpace rest)

/--
The root element of a document, if the document is well formed.
-/
def read? (s : String) : Option Element := do
  let cs := Text.unixLines s.toList
  let cs := if cs.head? == some '\uFEFF' then cs.drop 1 else cs
  let cs ← match Text.after? "<?xml".toList cs with
    | some rest => if rest.head?.any isSpace then skipXmlDeclaration? rest else some cs
    | none => some cs
  let fuel := 2 * cs.length + 2
  let (scope, rest) ← skipMisc? fuel true Scope.initial cs
  match rest with
  | '<' :: body =>
    let (root, rest) ← takeElement? (20 * fuel) scope body
    let (_, rest) ← skipMisc? fuel false scope rest
    if rest.isEmpty then return root else none
  | _ => none

end Polyglot.Xml
