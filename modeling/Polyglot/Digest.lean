import Polyglot.Text.Quoted

/-!
Base 64, bytes written three at a time with four of sixty-four signs, and the MD5 digest of a row of bytes:
sixteen bytes that name a text.

The message of a digest is padded to blocks of sixteen words, least significant byte first, and each block is
mixed into four words in sixty-four rounds.
-/

namespace Polyglot.Digest.Base64

def sign (n : Nat) : Char :=
  if n < 26 then Char.ofNat (65 + n)
  else if n < 52 then Char.ofNat (71 + n)
  else if n < 62 then Char.ofNat (n - 4)
  else if n = 62 then '+' else '/'

def value? (c : Char) : Option Nat :=
  if 'A' ≤ c && c ≤ 'Z' then some (c.toNat - 65)
  else if 'a' ≤ c && c ≤ 'z' then some (c.toNat - 71)
  else if '0' ≤ c && c ≤ '9' then some (c.toNat + 4)
  else if c = '+' then some 62
  else if c = '/' then some 63
  else none

/--
The written form; a last group of one or two bytes is filled up with equals signs.
-/
def encode : List UInt8 → List Char
  | [] => []
  | [a] =>
    let n := a.toNat * 16
    [sign (n / 64), sign (n % 64), '=', '=']
  | [a, b] =>
    let n := (a.toNat * 256 + b.toNat) * 4
    [sign (n / 4096), sign (n / 64 % 64), sign (n % 64), '=']
  | a :: b :: c :: rest =>
    let n := (a.toNat * 256 + b.toNat) * 256 + c.toNat
    sign (n / 262144) :: sign (n / 4096 % 64) :: sign (n / 64 % 64) :: sign (n % 64) :: encode rest

/--
The bytes of a written form. Characters that are no signs are passed over; the last group has to be
filled up, and what follows it is not read.
-/
def decode? (cs : List Char) : Option (List UInt8) :=
  go [] 0 cs
where
  go : List Nat → Nat → List Char → Option (List UInt8)
    | group, _, [] => if group.isEmpty then some [] else none
    | group, fill, c :: cs =>
      if c = '=' then
        if group.length + fill + 1 = 4 ∧ 2 ≤ group.length then some (bytes group) else go group (fill + 1) cs
      else match value? c with
        | none => go group fill cs
        | some v =>
          let group := group ++ [v]
          if group.length = 4 then (go [] 0 cs).map (bytes group ++ ·) else go group 0 cs
  bytes : List Nat → List UInt8
    | [a, b] => [UInt8.ofNat (a * 4 + b / 16)]
    | [a, b, c] => [UInt8.ofNat (a * 4 + b / 16), UInt8.ofNat (b % 16 * 16 + c / 4)]
    | [a, b, c, d] =>
      [UInt8.ofNat (a * 4 + b / 16), UInt8.ofNat (b % 16 * 16 + c / 4), UInt8.ofNat (c % 4 * 64 + d)]
    | _ => []

end Polyglot.Digest.Base64

namespace Polyglot.Digest

structure Md5.State where
  a : UInt32
  b : UInt32
  c : UInt32
  d : UInt32

namespace Md5

def shifts : Array UInt32 := #[
  7, 12, 17, 22, 7, 12, 17, 22, 7, 12, 17, 22, 7, 12, 17, 22,
  5, 9, 14, 20, 5, 9, 14, 20, 5, 9, 14, 20, 5, 9, 14, 20,
  4, 11, 16, 23, 4, 11, 16, 23, 4, 11, 16, 23, 4, 11, 16, 23,
  6, 10, 15, 21, 6, 10, 15, 21, 6, 10, 15, 21, 6, 10, 15, 21]

def constants : Array UInt32 := #[
  0xd76aa478, 0xe8c7b756, 0x242070db, 0xc1bdceee, 0xf57c0faf, 0x4787c62a, 0xa8304613, 0xfd469501,
  0x698098d8, 0x8b44f7af, 0xffff5bb1, 0x895cd7be, 0x6b901122, 0xfd987193, 0xa679438e, 0x49b40821,
  0xf61e2562, 0xc040b340, 0x265e5a51, 0xe9b6c7aa, 0xd62f105d, 0x02441453, 0xd8a1e681, 0xe7d3fbc8,
  0x21e1cde6, 0xc33707d6, 0xf4d50d87, 0x455a14ed, 0xa9e3e905, 0xfcefa3f8, 0x676f02d9, 0x8d2a4c8a,
  0xfffa3942, 0x8771f681, 0x6d9d6122, 0xfde5380c, 0xa4beea44, 0x4bdecfa9, 0xf6bb4b60, 0xbebfbc70,
  0x289b7ec6, 0xeaa127fa, 0xd4ef3085, 0x04881d05, 0xd9d4d039, 0xe6db99e5, 0x1fa27cf8, 0xc4ac5665,
  0xf4292244, 0x432aff97, 0xab9423a7, 0xfc93a039, 0x655b59c3, 0x8f0ccc92, 0xffeff47d, 0x85845dd1,
  0x6fa87e4f, 0xfe2ce6e0, 0xa3014314, 0x4e0811a1, 0xf7537e82, 0xbd3af235, 0x2ad7d2bb, 0xeb86d391]

def initial : State := ⟨0x67452301, 0xefcdab89, 0x98badcfe, 0x10325476⟩

def rotateLeft (x n : UInt32) : UInt32 :=
  (x <<< n) ||| (x >>> (32 - n))

def round (block : Array UInt32) (s : State) (i : Nat) : State :=
  let (f, g) :=
    if i < 16 then ((s.b &&& s.c) ||| (~~~s.b &&& s.d), i)
    else if i < 32 then ((s.d &&& s.b) ||| (~~~s.d &&& s.c), (5 * i + 1) % 16)
    else if i < 48 then (s.b ^^^ s.c ^^^ s.d, (3 * i + 5) % 16)
    else (s.c ^^^ (s.b ||| ~~~s.d), 7 * i % 16)
  let sum := f + s.a + constants.getD i 0 + block.getD g 0
  ⟨s.d, s.b + rotateLeft sum (shifts.getD i 0), s.b, s.c⟩

def mix (s : State) (block : Array UInt32) : State :=
  let t := (List.range 64).foldl (round block) s
  ⟨s.a + t.a, s.b + t.b, s.c + t.c, s.d + t.d⟩

def littleEndian : Nat → Nat → List UInt8
  | 0, _ => []
  | width + 1, n => UInt8.ofNat (n % 256) :: littleEndian width (n / 256)

def padded (bytes : List UInt8) : List UInt8 :=
  let n := bytes.length
  bytes ++ 0x80 :: List.replicate ((119 - n % 64) % 64) 0 ++ littleEndian 8 (8 * n)

def words : List UInt8 → List UInt32
  | b0 :: b1 :: b2 :: b3 :: bs =>
    (b0.toUInt32 ||| (b1.toUInt32 <<< 8) ||| (b2.toUInt32 <<< 16) ||| (b3.toUInt32 <<< 24)) ::
      words bs
  | _ => []

def blocks (fuel : Nat) (ws : List UInt32) : List (Array UInt32) :=
  match fuel, ws with
  | 0, _ => []
  | _, [] => []
  | fuel + 1, w :: ws => ((w :: ws).take 16).toArray :: blocks fuel ((w :: ws).drop 16)

end Md5

def md5 (bytes : List UInt8) : List UInt8 :=
  let ws := Md5.words (Md5.padded bytes)
  let s := (Md5.blocks ws.length ws).foldl Md5.mix Md5.initial
  [s.a, s.b, s.c, s.d].flatMap fun w => Md5.littleEndian 4 w.toNat

def hex (bytes : List UInt8) : String :=
  String.ofList (bytes.flatMap fun b => Text.hexDigits 2 b.toNat)

end Polyglot.Digest
