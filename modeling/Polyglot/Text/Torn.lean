import Polyglot.Text.Quoted

/-!
Torn texts: rows of characters and of halves of surrogate pairs that stand alone. JSON can spell them and
callers can give them, but they are no texts: no encoding has such a half, and no file or page holds one.
-/

namespace Polyglot.Text

/--
A character, or a half of a surrogate pair by its distance from the first one.
-/
inductive Part where
  | char (c : Char)
  | half (n : Fin 0x800)
  deriving DecidableEq

namespace Part

def isHalf : Part → Bool
  | char _ => false
  | half _ => true

def ofCode (n : Nat) : Part :=
  if h : 0xd800 ≤ n ∧ n < 0xe000 then half ⟨n - 0xd800, by omega⟩ else char (Char.ofNat n)

def mended : Part → Char
  | char c => c
  | half _ => '\uFFFD'

def escape (n : Fin 0x800) : List Char :=
  codeEscape (0xd800 + n)

def isByte : Part → Bool
  | char _ => true
  | half n => 0x480 ≤ n.val && n.val < 0x500

end Part

def mended (ps : List Part) : String :=
  String.ofList (ps.map Part.mended)

structure Torn where
  parts : List Part
  torn : parts.any Part.isHalf
  deriving DecidableEq

namespace Torn

def mended (t : Torn) : String :=
  Text.mended t.parts

theorem mended_ne_empty (t : Torn) : t.mended ≠ "" := by
  intro hempty
  have hchars := congrArg String.toList hempty
  rw [mended, Text.mended, String.toList_ofList] at hchars
  have htorn := t.torn
  rw [List.map_eq_nil_iff.mp hchars] at htorn
  cases htorn

def quoted (t : Torn) : String :=
  let mark := quoteMark t.mended.toList
  let body := t.parts.flatMap fun
    | .char c => quoteChar mark c
    | .half n => Part.escape n
  String.ofList (mark :: body ++ [mark])

def complaint (t : Torn) : String :=
  let before := t.parts.takeWhile (!·.isHalf)
  let halves := (t.parts.drop before.length).takeWhile Part.isHalf
  let place := match halves with
    | [.half n] => "character '" ++ String.ofList (Part.escape n) ++ "' in position " ++
      toString before.length
    | _ => "characters in position " ++ toString before.length ++ "-" ++
      toString (before.length + halves.length - 1)
  "'utf-8' codec can't encode " ++ place ++ ": surrogates not allowed"

end Torn

end Polyglot.Text
