import Polyglot.Yaml.Scalar

/-!
The tokens of a YAML text.

Indentation is made into tokens that open and close collections. A key without a sign of its own is
recognised by the colon behind it: its token goes in front of what has been read since.
-/

namespace Polyglot.Yaml

inductive Token where
  | version (major : Nat)
  | tagHandle (handle start : String)
  | otherDirective
  | documentStart
  | documentEnd
  | sequenceStart
  | mappingStart
  | blockEnd
  | flowSequenceStart
  | flowSequenceEnd
  | flowMappingStart
  | flowMappingEnd
  | entry
  | flowEntry
  | key
  | value
  | alias (name : String)
  | anchor (name : String)
  | tag (handle : Option String) (suffix : String)
  | scalar (text : String) (plain : Bool)
  deriving DecidableEq

/--
A place where a key may have begun. In a block a key has to be one that starts at the indentation.
-/
structure KeyStart where
  position : Nat
  required : Bool
  index : Nat
  line : Nat
  column : Nat

structure Scan where
  at_ : Cursor
  tokens : List Token := []
  indent : Int := -1
  indents : List Int := []
  flow : Nat := 0
  keyAllowed : Bool := true
  keys : List (Nat × KeyStart) := []

namespace Scan

def emit (s : Scan) (t : Token) : Scan :=
  { s with tokens := s.tokens ++ [t] }

def insertAt (s : Scan) (n : Nat) (t : Token) : Scan :=
  { s with tokens := s.tokens.take n ++ t :: s.tokens.drop n }

def dropKey? (s : Scan) : Option Scan :=
  match s.keys.lookup s.flow with
  | some k => if k.required then none else some { s with keys := s.keys.filter (·.1 != s.flow) }
  | none => some s

def noteKey? (s : Scan) : Option Scan :=
  if s.keyAllowed then
    s.dropKey?.map fun s =>
      let k : KeyStart := ⟨s.tokens.length, s.flow == 0 && s.indent == s.at_.column, s.at_.index,
        s.at_.line, s.at_.column⟩
      { s with keys := (s.flow, k) :: s.keys }
  else some s

def dropStale? (s : Scan) : Option Scan :=
  let isStale (k : KeyStart) : Bool := k.line != s.at_.line || s.at_.index - k.index > 1024
  if s.keys.any fun (_, k) => isStale k && k.required then none
  else some { s with keys := s.keys.filter fun (_, k) => !isStale k }

def unwind (s : Scan) (column : Int) : Scan :=
  if s.flow != 0 then s
  else go s.indents.length s
where
  go : Nat → Scan → Scan
    | 0, s => if s.indent > column then ({ s with indent := -1 } : Scan).emit .blockEnd else s
    | fuel + 1, s =>
      if s.indent > column then
        go fuel ({ s with indent := s.indents.headD (-1), indents := s.indents.tail }.emit .blockEnd)
      else s

def indentTo (s : Scan) (column : Nat) : Option Scan :=
  if s.indent < column then
    some { s with indents := s.indent :: s.indents, indent := column }
  else none

def move (s : Scan) (n : Nat) : Scan :=
  { s with at_ := s.at_.skip n }

def skipBlank : Nat → Scan → Scan
  | 0, s => s
  | fuel + 1, s =>
    match s.at_.skipSpaces.skipComment.takeBreak with
    | (some _, c) =>
      skipBlank fuel { s with at_ := c, keyAllowed := s.keyAllowed || s.flow == 0 }
    | (none, c) => { s with at_ := c }

def isUriChar (c : Char) : Bool :=
  Text.isAsciiLetter c || Text.isAsciiDigit c || "-;/?:@&=+$,_.!~*'()[]%".toList.contains c

def uriBytes : Nat → List Char → Option (List UInt8 × List Char)
  | 0, cs => some ([], cs)
  | fuel + 1, '%' :: a :: b :: cs =>
    if isHex a && isHex b then
      (uriBytes fuel cs).map fun (bs, rest) => (UInt8.ofNat (hexNumber [a, b]) :: bs, rest)
    else none
  | _, '%' :: _ => none
  | _, cs => some ([], cs)

/--
A tag's address, percent signs resolved. It has at least one character.
-/
def uri? (c : Cursor) : Option (String × Cursor) :=
  let (cs, c) := c.takeWhile isUriChar
  if cs.isEmpty then none else (decode (cs.length + 1) cs).map fun cs => (String.ofList cs, c)
where
  decode : Nat → List Char → Option (List Char)
    | 0, _ => none
    | _, [] => some []
    | fuel + 1, '%' :: cs =>
      match uriBytes (cs.length + 1) ('%' :: cs) with
      | some (bytes, rest) => do
        let s ← String.fromUTF8? ⟨bytes.toArray⟩
        return s.toList ++ (← decode fuel rest)
      | none => none
    | fuel + 1, a :: cs => (decode fuel cs).map (a :: ·)

def handle? (directive : Bool) (c : Cursor) : Option (String × Cursor) :=
  if c.peek != '!' then none
  else
    let (name, after) := c.next.takeWhile isTagNameChar
    if after.peek == '!' && !(name.isEmpty && c.peekAt 1 == ' ') then
      some (String.ofList ('!' :: name ++ ['!']), after.next)
    else if name.isEmpty && (!directive || c.peekAt 1 == ' ') then some ("!", c.next)
    else none

def tag? (c : Cursor) : Option (Token × Cursor) := do
  let a := c.peekAt 1
  let (t, c) ←
    if a == '<' then do
      let (suffix, c) ← uri? (c.skip 2)
      if c.peek == '>' then some (Token.tag none suffix, c.next) else none
    else if isGap a then some (.tag none "!", c.next)
    else if (c.next.takeWhile (!isSpaceOrEnd ·)).1.contains '!' then do
      let (handle, c) ← handle? false c
      let (suffix, c) ← uri? c
      some (.tag (some handle) suffix, c)
    else do
      let (suffix, c) ← uri? c.next
      some (.tag (some "!") suffix, c)
  if isSpaceOrEnd c.peek then some (t, c) else none

def name? (c : Cursor) : Option (String × Cursor) :=
  let (name, c) := c.takeWhile isTagNameChar
  if name.isEmpty then none else some (String.ofList name, c)

def anchorName? (c : Cursor) : Option (String × Cursor) := do
  let (name, c) ← name? c.next
  if isGap c.peek || "?:,]\x7d%@\x60".toList.contains c.peek then some (name, c) else none

def number? (c : Cursor) : Option (Nat × Cursor) :=
  let (ds, c) := c.takeWhile Text.isAsciiDigit
  if ds.isEmpty then none else some (Text.ofDecimals ds, c)

def directive? (c : Cursor) : Option (Token × Cursor) := do
  let (name, c) ← name? c.next
  if !isSpaceOrEnd c.peek then none
  else if name == "YAML" then do
    let (major, c) ← number? c.skipSpaces
    if c.peek != '.' then none
    else
      let (_, c) ← number? c.next
      if isSpaceOrEnd c.peek then return (.version major, ← c.endLine?) else none
  else if name == "TAG" then do
    let (handle, c) ← handle? true c.skipSpaces
    if c.peek != ' ' then none
    else
      let (start, c) ← uri? c.skipSpaces
      if isSpaceOrEnd c.peek then return (.tagHandle handle start, ← c.endLine?) else none
  else return (.otherDirective, ← (c.skipWhile (!isBreakOrEnd ·)).endLine?)

def plainStarts (s : Scan) : Bool :=
  let a := s.at_.peek
  let b := s.at_.peekAt 1
  !(isGap a || "-?:,[]\x7b\x7d#&*!|>'\"%@\x60".toList.contains a) ||
    (!isGap b && (a == '-' || (s.flow == 0 && (a == '?' || a == ':'))))

def openFlow? (s : Scan) (t : Token) : Option Scan :=
  s.noteKey?.map fun s =>
    ({ s with flow := s.flow + 1, keyAllowed := true }.move 1).emit t

def closeFlow? (s : Scan) (t : Token) : Option Scan :=
  if s.flow == 0 then none
  else s.dropKey?.map fun s =>
    ({ s with flow := s.flow - 1, keyAllowed := false }.move 1).emit t

/--
A token that stands for a whole node or a property of one, and that a key may start with.
-/
def nodeToken? (s : Scan) (read : Cursor → Option (Token × Cursor)) : Option Scan := do
  let s ← s.noteKey?
  let (t, c) ← read s.at_
  return { s with keyAllowed := false, at_ := c }.emit t

def openBlock (s : Scan) (column : Nat) (t : Token) : Scan :=
  match s.indentTo column with
  | some s => s.emit t
  | none => s

def sign? (s : Scan) (start sign : Token) (keyAllowed : Bool) : Option Scan := do
  if s.flow == 0 && !s.keyAllowed then none
  else
    let s := if s.flow == 0 then s.openBlock s.at_.column start else s
    let s ← ({ s with keyAllowed } : Scan).dropKey?
    return (s.move 1).emit sign

/--
The colon behind a key. The key may have begun earlier without a sign.
-/
def colon? (s : Scan) : Option Scan :=
  match s.keys.lookup s.flow with
  | some k =>
    let s := { s with keys := s.keys.filter (·.1 != s.flow), keyAllowed := false }
    let s := s.insertAt k.position .key
    let s := if s.flow == 0 then
        match s.indentTo k.column with
        | some s => s.insertAt k.position .mappingStart
        | none => s
      else s
    some ((s.move 1).emit .value)
  | none => s.sign? .mappingStart .value (s.flow == 0)

def boundary? (s : Scan) : Option Scan :=
  (s.unwind (-1)).dropKey?.map fun s => { s with keyAllowed := false }

def block? (s : Scan) (fold : Bool) : Option Scan := do
  let s ← ({ s with keyAllowed := true } : Scan).dropKey?
  let (text, c) ← blockText? fold s.indent s.at_.next
  return { s with at_ := c }.emit (.scalar (String.ofList text) false)

def quoted? (double : Bool) (c : Cursor) : Option (Token × Cursor) :=
  (quotedText? double (c.rest.length + 1) c.next).map fun (text, c) =>
    (.scalar (String.ofList text) false, c)

def plain? (s : Scan) : Option Scan := do
  let s ← s.noteKey?
  let p := plainText (s.flow != 0) (s.indent + 1) (s.at_.rest.length + 1) [] s.at_
  return { s with at_ := p.after, keyAllowed := p.newLine }.emit (.scalar (String.ofList p.text) true)

/--
Reads the next token; the place has to be at its first sign.
-/
def token? (s : Scan) : Option Scan :=
  let a := s.at_.peek
  let b := s.at_.peekAt 1
  let atStart := s.at_.column == 0
  if a == '%' && atStart then do
    let s ← s.boundary?
    let (t, c) ← directive? s.at_
    return { s with at_ := c }.emit t
  else if atStart && s.at_.atMark '-' then
    s.boundary?.map fun s => (s.move 3).emit .documentStart
  else if atStart && s.at_.atMark '.' then
    s.boundary?.map fun s => (s.move 3).emit .documentEnd
  else if a == '[' then s.openFlow? .flowSequenceStart
  else if a == '\x7b' then s.openFlow? .flowMappingStart
  else if a == ']' then s.closeFlow? .flowSequenceEnd
  else if a == '\x7d' then s.closeFlow? .flowMappingEnd
  else if a == ',' then
    ({ s with keyAllowed := true } : Scan).dropKey?.map fun s => (s.move 1).emit .flowEntry
  else if a == '-' && isGap b then s.sign? .sequenceStart .entry true
  else if a == '?' && (s.flow != 0 || isGap b) then s.sign? .mappingStart .key (s.flow == 0)
  else if a == ':' && (s.flow != 0 || isGap b) then s.colon?
  else if a == '*' then
    s.nodeToken? fun c => (anchorName? c).map fun (n, c) => (.alias n, c)
  else if a == '&' then
    s.nodeToken? fun c => (anchorName? c).map fun (n, c) => (.anchor n, c)
  else if a == '!' then s.nodeToken? tag?
  else if a == '|' && s.flow == 0 then s.block? false
  else if a == '>' && s.flow == 0 then s.block? true
  else if a == '\'' then s.nodeToken? (quoted? false)
  else if a == '"' then s.nodeToken? (quoted? true)
  else if s.plainStarts then s.plain?
  else none

def run? : Nat → Scan → Option (List Token)
  | 0, _ => none
  | fuel + 1, s => do
    let s ← (s.skipBlank (s.at_.rest.length + 1)).dropStale?
    let s := s.unwind s.at_.column
    if s.at_.rest.isEmpty then return (← s.boundary?).tokens
    else run? fuel (← s.token?)

end Scan

/--
The tokens of a text. A byte order mark may stand in front of it.
-/
def tokens? (s : String) : Option (List Token) :=
  let cs := s.toList
  if !cs.all isPrintable then none
  else
    let cs := match cs with
      | '\uFEFF' :: rest => rest
      | cs => cs
    Scan.run? (cs.length + 2) { at_ := { rest := cs } }

end Polyglot.Yaml
