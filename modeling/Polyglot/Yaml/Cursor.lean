import Polyglot.Text.Character

/-!
A place in a YAML text: what is left of it, and the line and column reached.
-/

namespace Polyglot.Yaml

def isPrintable (c : Char) : Bool :=
  let n := c.toNat
  n == 9 || n == 10 || n == 13 || (0x20 ≤ n && n ≤ 0x7e) || n == 0x85 ||
    (0xa0 ≤ n && n ≤ 0xfffd) || 0x10000 ≤ n

/--
The sign that stands for the end of the text, which no text holds.
-/
def finish : Char := '\x00'

def isBreak (c : Char) : Bool :=
  c == '\n' || c == '\r' || c == '\u0085' || c == '\u2028' || c == '\u2029'

def isBreakOrEnd (c : Char) : Bool :=
  c == finish || isBreak c

def isSpaceOrEnd (c : Char) : Bool :=
  c == ' ' || isBreakOrEnd c

def isGap (c : Char) : Bool :=
  c == '\t' || isSpaceOrEnd c

def isTagNameChar (c : Char) : Bool :=
  Text.isAsciiLetter c || Text.isAsciiDigit c || c == '-' || c == '_'

structure Cursor where
  rest : List Char
  index : Nat := 0
  line : Nat := 0
  column : Nat := 0

namespace Cursor

def peek (c : Cursor) : Char :=
  c.rest.headD finish

def peekAt (c : Cursor) (n : Nat) : Char :=
  (c.rest.drop n).headD finish

def next (c : Cursor) : Cursor :=
  match c.rest with
  | [] => c
  | a :: rest =>
    if isBreak a && !(a == '\r' && rest.head? == some '\n') then ⟨rest, c.index + 1, c.line + 1, 0⟩
    else ⟨rest, c.index + 1, c.line, if a == '\uFEFF' then c.column else c.column + 1⟩

def skip : Nat → Cursor → Cursor
  | 0, c => c
  | n + 1, c => skip n c.next

def takeWhile (c : Cursor) (p : Char → Bool) : List Char × Cursor :=
  let taken := c.rest.takeWhile p
  (taken, c.skip taken.length)

def skipWhile (c : Cursor) (p : Char → Bool) : Cursor :=
  (c.takeWhile p).2

def skipSpaces (c : Cursor) : Cursor :=
  c.skipWhile (· == ' ')

def skipComment (c : Cursor) : Cursor :=
  if c.peek == '#' then c.skipWhile (!isBreakOrEnd ·) else c

/--
Takes a line break, if there is one. All breaks of ASCII texts are one.
-/
def takeBreak (c : Cursor) : Option Char × Cursor :=
  let a := c.peek
  if a == '\r' && c.peekAt 1 == '\n' then (some '\n', c.skip 2)
  else if a == '\r' || a == '\n' || a == '\u0085' then (some '\n', c.next)
  else if a == '\u2028' || a == '\u2029' then (some a, c.next)
  else (none, c)

def atMark (c : Cursor) (sign : Char) : Bool :=
  c.peek == sign && c.peekAt 1 == sign && c.peekAt 2 == sign && isGap (c.peekAt 3)

def atSeparator (c : Cursor) : Bool :=
  c.atMark '-' || c.atMark '.'

def endLine? (c : Cursor) : Option Cursor :=
  let c := c.skipSpaces.skipComment
  if isBreakOrEnd c.peek then some c.takeBreak.2 else none

end Cursor

end Polyglot.Yaml
