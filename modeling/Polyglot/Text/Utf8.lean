/-!
Reading bytes as UTF-8 without ever failing: what is not the encoding of a character is replaced.

The decoder is a machine that takes one byte at a time. A byte that cannot go on the sequence begun
before it ends that sequence, so each longest piece that could have been a character is replaced
once.
-/

namespace Polyglot.Text.Utf8

/--
A sequence that has begun: the bits read, the bytes owed, and the bounds of the next byte.
-/
structure Pending where
  code : Nat
  owed : Nat
  low : Nat
  high : Nat

/--
What one byte leads to: a character, a sequence begun, or nothing that can be read.
-/
inductive Outcome where
  | char (c : Char)
  | begun (p : Pending)
  | bad

def first (b : Nat) : Outcome :=
  if b < 0x80 then .char (Char.ofNat b)
  else if 0xc2 ≤ b ∧ b ≤ 0xdf then .begun ⟨b - 0xc0, 1, 0x80, 0xbf⟩
  else if b = 0xe0 then .begun ⟨0, 2, 0xa0, 0xbf⟩
  else if b = 0xed then .begun ⟨0xd, 2, 0x80, 0x9f⟩
  else if 0xe1 ≤ b ∧ b ≤ 0xef then .begun ⟨b - 0xe0, 2, 0x80, 0xbf⟩
  else if b = 0xf0 then .begun ⟨0, 3, 0x90, 0xbf⟩
  else if 0xf1 ≤ b ∧ b ≤ 0xf3 then .begun ⟨b - 0xf0, 3, 0x80, 0xbf⟩
  else if b = 0xf4 then .begun ⟨4, 3, 0x80, 0x8f⟩
  else .bad

def next (p : Pending) (b : Nat) : Outcome :=
  if p.low ≤ b ∧ b ≤ p.high then
    let code := p.code * 64 + (b - 0x80)
    if p.owed = 1 then .char (Char.ofNat code) else .begun ⟨code, p.owed - 1, 0x80, 0xbf⟩
  else .bad

def decodeWith (bad : List Char) (bytes : List UInt8) : List Char :=
  go none bytes
where
  go : Option Pending → List UInt8 → List Char
    | none, [] => []
    | some _, [] => bad
    | none, b :: bs =>
      match first b.toNat with
      | .char c => c :: go none bs
      | .begun p => go (some p) bs
      | .bad => bad ++ go none bs
    | some p, b :: bs =>
      match next p b.toNat with
      | .char c => c :: go none bs
      | .begun p => go (some p) bs
      | .bad =>
        match first b.toNat with
        | .char c => bad ++ c :: go none bs
        | .begun p => bad ++ go (some p) bs
        | .bad => bad ++ bad ++ go none bs

/--
The text of a row of bytes, with U+FFFD in place of every piece that is no character.
-/
def decode (bytes : List UInt8) : List Char :=
  decodeWith ['\uFFFD'] bytes

def decode? (bytes : List UInt8) : Option (List Char) :=
  (String.fromUTF8? ⟨bytes.toArray⟩).map String.toList

def encode (s : String) : List UInt8 :=
  s.toUTF8.data.toList

end Polyglot.Text.Utf8
