import Polyglot.Text.Character

/-!
The quoted form of a text: between quotes, with what cannot be printed written as an escape. A text
that holds a single quote and no double quote stands between double quotes, any other between single
ones. The way back is from texts written with a backslash before what stands for another character.
-/

namespace Polyglot.Text

def isPrintable (c : Char) : Bool :=
  if c.toNat < 127 then 32 ≤ c.toNat else inRanges printableRanges c.toNat

def hexDigit (n : Nat) : Char :=
  if n < 10 then Char.ofNat (48 + n) else Char.ofNat (87 + n)

def hexDigits : Nat → Nat → List Char
  | 0, _ => []
  | width + 1, n => hexDigits width (n / 16) ++ [hexDigit (n % 16)]

def codeEscape (n : Nat) : List Char :=
  if n < 0x100 then '\\' :: 'x' :: hexDigits 2 n
  else if n < 0x10000 then '\\' :: 'u' :: hexDigits 4 n
  else '\\' :: 'U' :: hexDigits 8 n

def quoteMark (cs : List Char) : Char :=
  if cs.contains '\'' && !cs.contains '"' then '"' else '\''

def quoteChar (mark c : Char) : List Char :=
  if c == '\\' || c == mark then ['\\', c]
  else if c == '\n' then ['\\', 'n']
  else if c == '\r' then ['\\', 'r']
  else if c == '\t' then ['\\', 't']
  else if isPrintable c then [c]
  else codeEscape c.toNat

def quoted (s : String) : String :=
  let mark := quoteMark s.toList
  String.ofList (mark :: s.toList.flatMap (quoteChar mark) ++ [mark])

def quotedBytes (bytes : List UInt8) : String :=
  let mark := quoteMark (bytes.map fun b => Char.ofNat b.toNat)
  let body := bytes.flatMap fun b =>
    if b.toNat < 127 then quoteChar mark (Char.ofNat b.toNat) else codeEscape b.toNat
  String.ofList ('b' :: mark :: body ++ [mark])

def hexDigit? (c : Char) : Option Nat :=
  if isAsciiDigit c then some (c.toNat - 48)
  else if 'a' ≤ c.toLower && c.toLower ≤ 'f' then some (c.toLower.toNat - 87) else none

def isOctalDigit (c : Char) : Bool :=
  '0' ≤ c && c ≤ '7'

def hexChar? (n : Nat) (cs : List Char) : Option Char :=
  let ds := (cs.take n).filterMap hexDigit?
  let code := ds.foldl (fun k d => k * 16 + d) 0
  if ds.length == n && code.isValidChar then some (Char.ofNat code) else none

def letterEscape? : Char → Option (List Char)
  | '\n' => some []
  | '\\' => some ['\\']
  | '\'' => some ['\'']
  | '"' => some ['"']
  | 'a' => some ['\x07']
  | 'b' => some ['\x08']
  | 'f' => some ['\x0c']
  | 'n' => some ['\n']
  | 'r' => some ['\r']
  | 't' => some ['\t']
  | 'v' => some ['\x0b']
  | _ => none

def hexLength? : Char → Option Nat
  | 'x' => some 2
  | 'u' => some 4
  | 'U' => some 8
  | _ => none

/--
The text that is written. A backslash that announces nothing stands for itself; a number that stands
for no character makes the whole text wrong.
-/
def unescape? (cs : List Char) : Option (List Char) :=
  go (cs.length + 1) cs
where
  go : Nat → List Char → Option (List Char)
    | 0, _ => none
    | _, [] => some []
    | fuel + 1, '\\' :: c :: cs =>
      match letterEscape? c, hexLength? c with
      | some s, _ => (go fuel cs).map (s ++ ·)
      | none, some n =>
        match hexChar? n cs with
        | some d => (go fuel (cs.drop n)).map (d :: ·)
        | none => none
      | none, none =>
        if isOctalDigit c then
          let ds := ((c :: cs).take 3).takeWhile isOctalDigit
          let code := ds.foldl (fun k d => k * 8 + (d.toNat - 48)) 0
          (go fuel ((c :: cs).drop ds.length)).map (Char.ofNat code :: ·)
        else if c == 'N' then none
        else (go fuel cs).map ('\\' :: c :: ·)
    | fuel + 1, c :: cs => (go fuel cs).map (c :: ·)

end Polyglot.Text
