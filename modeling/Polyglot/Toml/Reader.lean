import Polyglot.Text.Search
import Polyglot.Toml.Scalar
import Polyglot.Toml.Tables

/-!
Reading TOML.
-/

namespace Polyglot.Toml

def bad {α : Type} : Except DataError α := .error .malformed

def orBad {α : Type} (a : Option α) : Except DataError α :=
  a.elim bad .ok

def isSpace (c : Char) : Bool := c == ' ' || c == '\t'

def skipSpace (cs : List Char) : List Char := cs.dropWhile isSpace

def isControl (c : Char) : Bool := c.toNat < 32 || c.toNat == 127

def isPlain (c : Char) : Bool := !isControl c || c == '\t'

def isPlainOrNewline (c : Char) : Bool := isPlain c || c == '\n'

def skipComment (cs : List Char) : Except DataError (List Char) :=
  match cs with
  | '#' :: rest =>
    let text := rest.takeWhile (· != '\n')
    if text.all isPlain then .ok (rest.drop text.length) else bad
  | _ => .ok cs

def skipLines : Nat → List Char → Except DataError (List Char)
  | 0, cs => .ok cs
  | fuel + 1, cs =>
    match cs.dropWhile fun c => isSpace c || c == '\n' with
    | '#' :: rest => do skipLines fuel (← skipComment ('#' :: rest))
    | rest => .ok rest

def isBareKeyChar (c : Char) : Bool :=
  Text.isAsciiLetter c || Text.isAsciiDigit c || c == '-' || c == '_'

def codeChar (n : Nat) (cs : List Char) : Except DataError (List Char × List Char) :=
  let ds := cs.take n
  let code := inBase 16 ds
  if ds.length == n && ds.all isHex && code.isValidChar then .ok ([Char.ofNat code], cs.drop n)
  else bad

def namedEscape? : Char → Option Char
  | 'b' => some '\x08'
  | 't' => some '\t'
  | 'n' => some '\n'
  | 'f' => some '\x0c'
  | 'r' => some '\r'
  | '"' => some '"'
  | '\\' => some '\\'
  | _ => none

/--
What the text behind a backslash stands for. In a string of several lines a backslash at the end of a
line takes away the blanks and line ends up to the next text.
-/
def escape (multi : Bool) (cs : List Char) : Except DataError (List Char × List Char) :=
  let skip (cs : List Char) : Except DataError (List Char × List Char) :=
    .ok ([], cs.dropWhile fun c => isSpace c || c == '\n')
  match cs with
  | 'u' :: rest => codeChar 4 rest
  | 'U' :: rest => codeChar 8 rest
  | '\n' :: rest => if multi then skip rest else bad
  | c :: rest =>
    if multi && isSpace c then
      match skipSpace rest with
      | [] => .ok ([], [])
      | '\n' :: rest => skip rest
      | _ => bad
    else match namedEscape? c with
      | some d => .ok ([d], rest)
      | none => bad
  | [] => bad

def basicString (multi : Bool) : Nat → List Char → Except DataError (List Char × List Char)
  | 0, _ => bad
  | fuel + 1, cs =>
    let more (s : List Char) (rest : List Char) : Except DataError (List Char × List Char) :=
      (basicString multi fuel rest).map fun (t, rest) => (s ++ t, rest)
    match cs with
    | [] => bad
    | '"' :: rest =>
      if !multi then .ok ([], rest)
      else match rest with
        | '"' :: '"' :: rest => .ok ([], rest)
        | _ => more ['"'] rest
    | '\\' :: rest =>
      match escape multi rest with
      | .ok (s, rest) => more s rest
      | .error e => .error e
    | c :: rest => if isPlain c || (multi && c == '\n') then more [c] rest else bad

def literalString (cs : List Char) : Except DataError (List Char × List Char) :=
  let text := cs.takeWhile (· != '\'')
  match cs.drop text.length with
  | _ :: rest => if text.all isPlain then .ok (text, rest) else bad
  | [] => bad

def extraQuotes (quote : Char) (s rest : List Char) : List Char × List Char :=
  let extra := (rest.take 2).takeWhile (· == quote)
  (s ++ extra, rest.drop extra.length)

def dropNewline : List Char → List Char
  | '\n' :: rest => rest
  | cs => cs

def string (cs : List Char) : Except DataError (List Char × List Char) :=
  match cs with
  | '"' :: '"' :: '"' :: rest => do
    let (s, rest) ← basicString true (rest.length + 1) (dropNewline rest)
    return extraQuotes '"' s rest
  | '"' :: rest => basicString false (rest.length + 1) rest
  | '\'' :: '\'' :: '\'' :: rest => do
    let (s, rest) ← orBad (Text.cut? ['\'', '\'', '\''] (dropNewline rest))
    if s.all isPlainOrNewline then return extraQuotes '\'' s rest else bad
  | '\'' :: rest => literalString rest
  | _ => bad

def keyPart (cs : List Char) : Except DataError (String × List Char) :=
  match cs with
  | '"' :: rest =>
    (basicString false (rest.length + 1) rest).map fun (s, rest) => (String.ofList s, rest)
  | '\'' :: rest => (literalString rest).map fun (s, rest) => (String.ofList s, rest)
  | _ =>
    let name := cs.takeWhile isBareKeyChar
    if name.isEmpty then bad else .ok (String.ofList name, cs.drop name.length)

def readKey : Nat → List Char → Except DataError (Key × List Char)
  | 0, _ => bad
  | fuel + 1, cs => do
    let (part, rest) ← keyPart cs
    match skipSpace rest with
    | '.' :: rest =>
      let (more, rest) ← readKey fuel (skipSpace rest)
      return (part :: more, rest)
    | rest => return ([part], rest)

def takeKey (cs : List Char) : Except DataError (Key × List Char) :=
  readKey (cs.length + 1) cs

def behindEquals (cs : List Char) : Except DataError (List Char) :=
  match cs with
  | '=' :: rest => .ok (skipSpace rest)
  | _ => bad

mutual

def value : Nat → List Char → Except DataError (Value × List Char)
  | 0, _ => bad
  | fuel + 1, cs =>
    match cs with
    | '"' :: _ | '\'' :: _ => (string cs).map fun (s, rest) => (.str (String.ofList s), rest)
    | 't' :: 'r' :: 'u' :: 'e' :: rest => .ok (.bool true, rest)
    | 'f' :: 'a' :: 'l' :: 's' :: 'e' :: rest => .ok (.bool false, rest)
    | '[' :: rest =>
      match skipLines rest.length rest with
      | .ok rest => (elements fuel rest).map fun (xs, rest) => (.list xs, rest)
      | .error e => .error e
    | '\x7b' :: rest =>
      match skipSpace rest with
      | '\x7d' :: rest => .ok (.map [], rest)
      | rest => (fields fuel {} rest).map fun (es, rest) => (.map es, rest)
    | _ => scalar cs

/--
The elements of a list up to its end. A comma may follow the last one.
-/
def elements : Nat → List Char → Except DataError (List Value × List Char)
  | 0, _ => bad
  | _, ']' :: rest => .ok ([], rest)
  | fuel + 1, cs =>
    match value fuel cs with
    | .error e => .error e
    | .ok (v, rest) =>
      match skipLines rest.length rest with
      | .error e => .error e
      | .ok (']' :: rest) => .ok ([v], rest)
      | .ok (',' :: rest) =>
        match skipLines rest.length rest with
        | .error e => .error e
        | .ok rest => (elements fuel rest).map fun (vs, rest) => (v :: vs, rest)
      | .ok _ => bad

def fields : Nat → Inline → List Char → Except DataError (Fields × List Char)
  | 0, _, _ => bad
  | fuel + 1, t, cs =>
    match takeKey cs with
    | .error e => .error e
    | .ok (key, rest) =>
      match behindEquals rest with
      | .error e => .error e
      | .ok rest =>
        match value fuel rest with
        | .error e => .error e
        | .ok (v, rest) =>
          match t.assign? key v with
          | none => bad
          | some t =>
            match skipSpace rest with
            | '\x7d' :: rest => .ok (t.entries, rest)
            | ',' :: rest => fields fuel t (skipSpace rest)
            | _ => bad

end

/--
A document that is being read: its tables, and the header that keys stand under.
-/
structure Progress where
  tables : Tables := {}
  header : Key := []

def statement (p : Progress) (cs : List Char) : Except DataError (Progress × List Char) :=
  match cs with
  | '[' :: '[' :: rest => do
    let t := p.tables.settle
    let (key, rest) ← takeKey (skipSpace rest)
    let t ← orBad (t.append? key)
    let rest ← orBad (Text.after? [']', ']'] rest)
    return (⟨t, key⟩, rest)
  | '[' :: rest => do
    let t := p.tables.settle
    let (key, rest) ← takeKey (skipSpace rest)
    let t ← orBad (t.declare? key)
    let rest ← orBad (Text.after? [']'] rest)
    return (⟨t, key⟩, rest)
  | _ => do
    let (key, rest) ← takeKey cs
    let rest ← behindEquals rest
    let (v, rest) ← value (2 * rest.length + 2) rest
    let t ← orBad (p.tables.assign? p.header key v)
    return ({ p with tables := t }, rest)

def lines : Nat → Progress → List Char → Except DataError Fields
  | 0, p, _ => .ok p.tables.entries
  | fuel + 1, p, cs =>
    match skipSpace cs with
    | [] => .ok p.tables.entries
    | '\n' :: rest => lines fuel p rest
    | c :: rest => do
      let (p, rest) ← if c == '#' then pure (p, c :: rest) else statement p (c :: rest)
      match ← skipComment (skipSpace rest) with
      | [] => return p.tables.entries
      | '\n' :: rest => lines fuel p rest
      | _ => bad

def plainNewlines : List Char → List Char
  | '\r' :: '\n' :: cs => '\n' :: plainNewlines cs
  | c :: cs => c :: plainNewlines cs
  | [] => []

def read (s : String) : Except DataError Value :=
  let cs := plainNewlines s.toList
  (lines (cs.length + 1) {} cs).map .map

end Polyglot.Toml
