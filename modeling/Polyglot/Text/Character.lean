import Polyglot.Text.Tables

/-!
Kinds of characters: blanks, and texts without their blank ends; word characters and digits, what names of
elements, attributes and programs are made of; small and capital letters, and matching with case ignored.

A character is blank when it separates words in Unicode 14: the ASCII blanks and separators, the
next-line and no-break signs, and the space and line separators beyond them.
-/

namespace Polyglot.Text

def isBlank (c : Char) : Bool :=
  let n := c.toNat
  (9 ≤ n && n ≤ 13) || (28 ≤ n && n ≤ 32) || n == 0x85 || n == 0xa0 || n == 0x1680 ||
    (0x2000 ≤ n && n ≤ 0x200a) || n == 0x2028 || n == 0x2029 || n == 0x202f || n == 0x205f ||
    n == 0x3000

def trimLeft (cs : List Char) : List Char :=
  cs.dropWhile isBlank

def trimRight (cs : List Char) : List Char :=
  (cs.reverse.dropWhile isBlank).reverse

def trim (cs : List Char) : List Char :=
  trimRight (trimLeft cs)

def blankEnd (cs : List Char) : List Char :=
  (cs.reverse.takeWhile isBlank).reverse

def allBlank (cs : List Char) : Bool :=
  cs.all isBlank

def trimmed (s : String) : String :=
  String.ofList (trim s.toList)

theorem trimRight_append_blankEnd (cs : List Char) : trimRight cs ++ blankEnd cs = cs := by
  rw [trimRight, blankEnd, ← List.reverse_append, List.takeWhile_append_dropWhile,
    List.reverse_reverse]

def isAsciiLetter (c : Char) : Bool :=
  ('a' ≤ c && c ≤ 'z') || ('A' ≤ c && c ≤ 'Z')

def isAsciiDigit (c : Char) : Bool :=
  '0' ≤ c && c ≤ '9'

def isWord (c : Char) : Bool :=
  if c.toNat < 128 then isAsciiLetter c || isAsciiDigit c || c == '_'
  else inRanges wordRanges c.toNat

def decimalValue? (c : Char) : Option Nat :=
  let n := c.toNat
  if n < 128 then if isAsciiDigit c then some (n - 48) else none
  else (zeroDigits.find? fun z => z ≤ n && n ≤ z + 9).map (n - ·)

def isDecimal (c : Char) : Bool :=
  (decimalValue? c).isSome

def isDigit (c : Char) : Bool :=
  isDecimal c || inRanges otherDigitRanges c.toNat

def ofDecimals (cs : List Char) : Nat :=
  cs.foldl (fun n c => n * 10 + (decimalValue? c).getD 0) 0

def shiftChar (c : Char) (d : Int) : Char :=
  Char.ofNat (c.toNat + d).toNat

def CaseRun.has (r : CaseRun) (n : Nat) : Bool :=
  r.first ≤ n && n ≤ r.last && (n - r.first) % r.stride == 0

def lowerChar (c : Char) : Char :=
  if c.toNat < 128 then c.toLower
  else match lowerRuns.find? (·.has c.toNat) with
    | some r => shiftChar c r.shift
    | none => c

def isCased (c : Char) : Bool :=
  if c.toNat < 128 then isAsciiLetter c else inRanges casedRanges c.toNat

def isCaseIgnorable (c : Char) : Bool :=
  if c.toNat < 128 then c == '\'' || c == '.' || c == ':' || c == '^' || c == '`'
  else inRanges caseIgnorableRanges c.toNat

/--
Whether the next character that letter case does not pass over is a letter with case.
-/
def meetsCase (cs : List Char) : Bool :=
  (cs.find? fun c => !isCaseIgnorable c).any isCased

/--
The small form of a character between others, those before it from the nearest one on. The dotted
capital I needs two characters, and a capital sigma at the end of a word becomes the final one.
-/
def lowerChars (before : List Char) (c : Char) (behind : List Char) : List Char :=
  if c == 'İ' then ['i', '\u0307']
  else if c == 'Σ' && meetsCase before && !meetsCase behind then ['ς']
  else [lowerChar c]

def lowerFrom (before : List Char) : List Char → List Char
  | [] => []
  | c :: cs => lowerChars before c cs ++ lowerFrom (c :: before) cs

def lower (s : String) : String :=
  String.ofList (lowerFrom [] s.toList)

def upperChars (c : Char) : List Char :=
  if c.toNat < 128 then [c.toUpper]
  else match upperRuns.find? (·.has c.toNat) with
    | some r => [shiftChar c r.shift]
    | none => match upperSequences.find? (·.1 == c.toNat) with
      | some (_, cs) => cs.map Char.ofNat
      | none => [c]

def upper (s : String) : String :=
  String.ofList (s.toList.flatMap upperChars)

def sameLetter (a b : Char) : Bool :=
  let x := lowerChar a
  let y := lowerChar b
  x == y || match sameLetterTable.find? (·.1 == x.toNat) with
    | some (_, others) => others.contains y.toNat
    | none => false

end Polyglot.Text
