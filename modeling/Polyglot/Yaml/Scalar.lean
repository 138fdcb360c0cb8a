import Polyglot.Yaml.Cursor

/-!
The texts of YAML scalars: in quotes, plain, and in blocks of lines.

An escape stands for a character. There are no torn texts here: an escape for half of a surrogate pair makes
the scalar wrong, like one for no code point at all.
-/

namespace Polyglot.Yaml

def isHex (c : Char) : Bool :=
  Text.isAsciiDigit c || ('a' ≤ c && c ≤ 'f') || ('A' ≤ c && c ≤ 'F')

def hexNumber (ds : List Char) : Nat :=
  ds.foldl (fun n c =>
    n * 16 + if Text.isAsciiDigit c then c.toNat - 48 else c.toLower.toNat - 87) 0

def namedEscape? : Char → Option Char
  | '0' => some '\x00'
  | 'a' => some '\x07'
  | 'b' => some '\x08'
  | 't' => some '\t'
  | '\t' => some '\t'
  | 'n' => some '\n'
  | 'v' => some '\x0b'
  | 'f' => some '\x0c'
  | 'r' => some '\r'
  | 'e' => some '\x1b'
  | ' ' => some ' '
  | '"' => some '"'
  | '\\' => some '\\'
  | '/' => some '/'
  | 'N' => some '\u0085'
  | '_' => some '\u00a0'
  | 'L' => some '\u2028'
  | 'P' => some '\u2029'
  | _ => none

def codeLength? : Char → Option Nat
  | 'x' => some 2
  | 'u' => some 4
  | 'U' => some 8
  | _ => none

/--
The line breaks of blank lines inside quotes. A mark that parts documents must not follow.
-/
def quotedBreaks? : Nat → Cursor → Option (List Char × Cursor)
  | 0, _ => none
  | fuel + 1, c =>
    if c.atSeparator then none
    else
      let c := c.skipWhile fun a => a == ' ' || a == '\t'
      match c.takeBreak with
      | (some b, c) => (quotedBreaks? fuel c).map fun (bs, c) => (b :: bs, c)
      | (none, c) => some ([], c)

/--
One break alone is a blank; breaks behind it stand for themselves.
-/
def folded (first : Char) (more : List Char) : List Char :=
  if first != '\n' then first :: more else if more.isEmpty then [' '] else more

def quotedText? (double : Bool) : Nat → Cursor → Option (List Char × Cursor)
  | 0, _ => none
  | fuel + 1, c =>
    let more (s : List Char) (c : Cursor) : Option (List Char × Cursor) :=
      (quotedText? double fuel c).map fun (t, c) => (s ++ t, c)
    let a := c.peek
    if a == finish then none
    else if a == '\'' && !double then
      if c.peekAt 1 == '\'' then more ['\''] (c.skip 2) else some ([], c.next)
    else if a == '"' && double then some ([], c.next)
    else if a == '\\' && double then
      let c := c.next
      let b := c.peek
      match namedEscape? b, codeLength? b with
      | some d, _ => more [d] c.next
      | none, some n =>
        let c := c.next
        let ds := c.rest.take n
        let code := hexNumber ds
        if ds.length == n && ds.all isHex && code.isValidChar then more [Char.ofNat code] (c.skip n)
        else none
      | none, none =>
        match c.takeBreak with
        | (some _, c) =>
          match quotedBreaks? (c.rest.length + 1) c with
          | some (bs, c) => more bs c
          | none => none
        | (none, _) => none
    else if a == ' ' || a == '\t' || isBreak a then
      let (spaces, c) := c.takeWhile fun a => a == ' ' || a == '\t'
      match c.takeBreak with
      | (some b, c) =>
        match quotedBreaks? (c.rest.length + 1) c with
        | some (bs, c) => more (folded b bs) c
        | none => none
      | (none, c) => more spaces c
    else
      let (s, c) := c.takeWhile fun a =>
        !(a == '\'' || a == '"' || a == '\\' || a == ' ' || a == '\t' || isBreak a)
      if s.isEmpty then more [a] c.next else more s c

/--
A plain text: its characters, the place behind it, and whether a key may follow on a new line.
-/
structure PlainText where
  text : List Char
  after : Cursor
  newLine : Bool

def endsPlain (inFlow : Bool) (a b : Char) : Bool :=
  isGap a ||
    (a == ':' && (isGap b || (inFlow && (b == ',' || b == '[' || b == ']' || b == '\x7b' ||
      b == '\x7d')))) ||
    (inFlow && (a == ',' || a == '?' || a == '[' || a == ']' || a == '\x7b' || a == '\x7d'))

def plainWord (inFlow : Bool) : List Char → List Char
  | [] => []
  | a :: rest =>
    if endsPlain inFlow a (rest.headD finish) then [] else a :: plainWord inFlow rest

/--
The breaks of blank lines behind a plain text, or nothing where a mark parts documents.
-/
def plainBreaks : Nat → Cursor → Option (List Char) × Cursor
  | 0, c => (some [], c)
  | fuel + 1, c =>
    if c.atSeparator then (none, c)
    else
      let c := c.skipSpaces
      match c.takeBreak with
      | (some b, c) =>
        match plainBreaks fuel c with
        | (some bs, c) => (some (b :: bs), c)
        | (none, c) => (none, c)
      | (none, c) => (some [], c)

/--
What stands between two words of a plain text, and whether a line has ended. Nothing stands there if
the text ends.
-/
def plainSpaces (c : Cursor) : List Char × Bool × Cursor :=
  let (spaces, c) := c.takeWhile (· == ' ')
  match c.takeBreak with
  | (some b, c) =>
    match plainBreaks (c.rest.length + 1) c with
    | (some bs, c) => (folded b bs, true, c)
    | (none, c) => ([], true, c)
  | (none, c) => (spaces, false, c)

def plainText (inFlow : Bool) (indent : Int) : Nat → List Char → Cursor → PlainText
  | 0, _, c => ⟨[], c, false⟩
  | fuel + 1, spaces, c =>
    let word := plainWord inFlow c.rest
    if c.peek == '#' || word.isEmpty then ⟨[], c, false⟩
    else
      let (gap, newLine, after) := plainSpaces (c.skip word.length)
      if gap.isEmpty || after.peek == '#' || (!inFlow && (after.column : Int) < indent) then
        ⟨spaces ++ word, after, newLine⟩
      else
        let more := plainText inFlow indent fuel gap after
        ⟨spaces ++ word ++ more.text, more.after, if more.text.isEmpty then newLine else more.newLine⟩

/--
How the end of a block of lines is treated: its last break alone is kept, none is, or all are.
-/
inductive Chomp where
  | clip
  | strip
  | keep
  deriving DecidableEq

def chompOf? : Char → Option Chomp
  | '+' => some .keep
  | '-' => some .strip
  | _ => none

def indentDigit? (c : Char) : Option Nat :=
  if '1' ≤ c && c ≤ '9' then some (c.toNat - 48) else none

def blockHeader? (c : Cursor) : Option (Chomp × Option Nat × Cursor) :=
  let a := c.peek
  let (chomp, width, c) := match chompOf? a, indentDigit? a with
    | some chomp, _ =>
      match indentDigit? (c.peekAt 1) with
      | some n => (chomp, some n, c.skip 2)
      | none => (chomp, none, c.next)
    | none, some n =>
      match chompOf? (c.peekAt 1) with
      | some chomp => (chomp, some n, c.skip 2)
      | none => (.clip, some n, c.next)
    | none, none => (.clip, none, c)
  if isSpaceOrEnd c.peek then c.endLine?.map fun c => (chomp, width, c) else none

def skipIndent (indent : Nat) : Nat → Cursor → Cursor
  | 0, c => c
  | fuel + 1, c => if c.column < indent && c.peek == ' ' then skipIndent indent fuel c.next else c

def blockBreaks (indent : Nat) : Nat → Cursor → List Char × Cursor
  | 0, c => ([], c)
  | fuel + 1, c =>
    let c := skipIndent indent indent c
    match c.takeBreak with
    | (some b, c) =>
      let (bs, c) := blockBreaks indent fuel c
      (b :: bs, c)
    | (none, c) => ([], c)

def blockIndent : Nat → Cursor → List Char × Nat × Cursor
  | 0, c => ([], 0, c)
  | fuel + 1, c =>
    let (spaces, c) := c.takeWhile (· == ' ')
    let width := if spaces.isEmpty then 0 else c.column
    match c.takeBreak with
    | (some b, c) =>
      let (bs, widest, c) := blockIndent fuel c
      (b :: bs, max width widest, c)
    | (none, c) => ([], width, c)

/--
The lines of a block. Folding joins lines that start with a text.
-/
def blockLines (fold : Bool) (chomp : Chomp) (indent : Nat) :
    Nat → List Char → Cursor → List Char × Cursor
  | 0, _, c => ([], c)
  | fuel + 1, breaks, c =>
    let starts (c : Cursor) : Bool := c.peek != ' ' && c.peek != '\t'
    let (line, after) := c.takeWhile (!isBreakOrEnd ·)
    let (end_, after) := after.takeBreak
    let (bs, after) := blockBreaks indent (after.rest.length + 1) after
    let joined := fold && end_ == some '\n' && starts c && starts after
    if after.column == indent && after.peek != finish then
      let between := if joined then if bs.isEmpty then [' '] else [] else end_.toList
      let (more, after) := blockLines fold chomp indent fuel bs after
      (breaks ++ line ++ between ++ more, after)
    else
      let tail := match chomp with
        | .strip => []
        | .clip => end_.toList
        | .keep => end_.toList ++ bs
      (breaks ++ line ++ tail, after)

def blockText? (fold : Bool) (outer : Int) (c : Cursor) : Option (List Char × Cursor) := do
  let (chomp, width, c) ← blockHeader? c
  let least := (max (outer + 1) 1).toNat
  let fuel := c.rest.length + 1
  let (breaks, indent, c) := match width with
    | some n =>
      let indent := least + n - 1
      let (bs, c) := blockBreaks indent fuel c
      (bs, indent, c)
    | none =>
      let (bs, widest, c) := blockIndent fuel c
      (bs, max least widest, c)
  if c.column == indent && c.peek != finish then
    return blockLines fold chomp indent fuel breaks c
  else return (if chomp = .keep then breaks else [], c)

end Polyglot.Yaml
