import Polyglot.Number.Reading
import Polyglot.Value.Basic

/-!
Reading JSON.

Besides the standard the reader knows the names `NaN`, `Infinity` and `-Infinity`. Integers are
exact. A key that is given twice keeps its first place and its last value. An escape for half of a
surrogate pair makes a torn text, unless the other half follows. Every fault has a place in the text.
-/

namespace Polyglot.Json

inductive Fault where
  | value
  | name
  | colon
  | comma
  | extra
  | openText
  | control
  | escape
  | code
  | mark
  | digits
  | depth
  deriving DecidableEq

def Fault.message : Fault → String
  | .value => "Expecting value"
  | .name => "Expecting property name enclosed in double quotes"
  | .colon => "Expecting ':' delimiter"
  | .comma => "Expecting ',' delimiter"
  | .extra => "Extra data"
  | .openText => "Unterminated string starting at"
  | .control => "Invalid control character at"
  | .escape => "Invalid \\escape"
  | .code => "Invalid \\uXXXX escape"
  | .mark => "Unexpected UTF-8 BOM (decode using utf-8-sig)"
  | .digits => "Exceeds the limit for integer string conversion"
  | .depth => "maximum recursion depth exceeded"

/--
A fault with its place, counted in characters from the start and in lines.
-/
structure Error where
  fault : Fault
  offset : Nat
  line : Nat
  column : Nat
  deriving DecidableEq

def Error.message (e : Error) : String :=
  match e.fault with
  | .digits | .depth => e.fault.message
  | f => f.message ++ ": line " ++ toString e.line ++ " column " ++ toString e.column ++
    " (char " ++ toString e.offset ++ ")"

def errorAt (text : List Char) (fault : Fault) (left : Nat) : Error :=
  let before := text.take (text.length - left)
  ⟨fault, before.length, before.count '\n' + 1, (before.reverse.takeWhile (· != '\n')).length + 1⟩

/--
What reading a part of a text gives: the part and the rest, or a fault and how much was left there.
-/
abbrev Step (α : Type) := Except (Fault × Nat) (α × List Char)

def isSpace (c : Char) : Bool :=
  c == ' ' || c == '\t' || c == '\n' || c == '\r'

def skipSpace (cs : List Char) : List Char :=
  cs.dropWhile isSpace

def hexValue? (c : Char) : Option Nat :=
  if '0' ≤ c && c ≤ '9' then some (c.toNat - 48)
  else if 'a' ≤ c && c ≤ 'f' then some (c.toNat - 87)
  else if 'A' ≤ c && c ≤ 'F' then some (c.toNat - 55)
  else none

def hexNumber? (cs : List Char) : Option Nat :=
  cs.foldlM (fun n c => (hexValue? c).map (n * 16 + ·)) 0

def code? (cs : List Char) : Option (Nat × List Char) :=
  if cs.length ≤ 4 then none
  else (hexNumber? (cs.take 4)).map fun n => (n, cs.drop 4)

def isHighSurrogate (n : Nat) : Bool := 0xd800 ≤ n && n < 0xdc00
def isLowSurrogate (n : Nat) : Bool := 0xdc00 ≤ n && n < 0xe000

def simpleEscape? : Char → Option Char
  | '"' => some '"'
  | '\\' => some '\\'
  | '/' => some '/'
  | 'b' => some '\x08'
  | 'f' => some '\x0c'
  | 'n' => some '\n'
  | 'r' => some '\r'
  | 't' => some '\t'
  | _ => none

/--
The text up to the closing quote, with the halves of surrogate pairs that stand alone. `start` is what was
left in front of the opening quote.
-/
def textBody (start : Nat) : Nat → List Text.Part → List Char → Step (List Text.Part)
  | 0, _, _ => .error (.openText, start)
  | fuel + 1, read, cs =>
    match cs with
    | [] => .error (.openText, start)
    | '"' :: rest => .ok (read.reverse, rest)
    | ['\\'] => .error (.openText, start)
    | '\\' :: 'u' :: rest =>
      match code? rest with
      | none => .error (.code, rest.length + 1)
      | some (n, more) =>
        match if isHighSurrogate n && 6 < more.length then more else [] with
        | '\\' :: 'u' :: tail =>
          match code? tail with
          | none => .error (.code, tail.length + 1)
          | some (low, rest) =>
            if isLowSurrogate low then
              let c := Char.ofNat (0x10000 + (n - 0xd800) * 0x400 + (low - 0xdc00))
              textBody start fuel (.char c :: read) rest
            else textBody start fuel (.ofCode n :: read) more
        | _ => textBody start fuel (.ofCode n :: read) more
    | '\\' :: c :: rest =>
      match simpleEscape? c with
      | some d => textBody start fuel (.char d :: read) rest
      | none => .error (.escape, rest.length + 2)
    | c :: rest =>
      if c.toNat < 32 then .error (.control, rest.length + 1)
      else textBody start fuel (.char c :: read) rest

/--
A number: an integer, or a floating-point number when it has a point or an exponent.
-/
def number (cs : List Char) : Step Value :=
  let (sign, body) := match cs with
    | '-' :: rest => (['-'], rest)
    | _ => ([], cs)
  let digits := Text.isAsciiDigit
  let whole := match body with
    | '0' :: _ => ['0']
    | _ => body.takeWhile digits
  let rest := body.drop whole.length
  let (part, rest) := match rest with
    | '.' :: more =>
      let ds := more.takeWhile digits
      if ds.isEmpty then ([], rest) else ('.' :: ds, more.dropWhile digits)
    | _ => ([], rest)
  let (power, rest) := match rest with
    | e :: more =>
      if e == 'e' || e == 'E' then
        let (mark, more) := match more with
          | '-' :: r => (['-'], r)
          | '+' :: r => (['+'], r)
          | r => ([], r)
        let ds := more.takeWhile digits
        if ds.isEmpty then ([], rest) else (e :: mark ++ ds, more.dropWhile digits)
      else ([], rest)
    | [] => ([], rest)
  if whole.isEmpty then .error (.value, cs.length)
  else if part.isEmpty && power.isEmpty then
    if whole.length > Number.digitLimit then .error (.digits, cs.length)
    else
      let n : Int := Text.ofDecimals whole
      .ok (.int (if sign.isEmpty then n else -n), rest)
  else
    match Number.fraction? (sign ++ whole ++ part ++ power) with
    | some f => .ok (.float f.toBinary64, rest)
    | none => .error (.value, cs.length)

def constant? (cs : List Char) : Option (Value × List Char) :=
  let word (w : String) (v : Value) : Option (Value × List Char) :=
    if w.toList.isPrefixOf cs then some (v, cs.drop w.length) else none
  word "null" .null <|> word "true" (.bool true) <|> word "false" (.bool false) <|>
    word "NaN" (.float .nan) <|> word "Infinity" (.float (.infinity false)) <|>
    word "-Infinity" (.float (.infinity true))

/--
How many lists and objects may stand in one another.
-/
def depthLimit : Nat := 970

mutual

def element (fuel depth : Nat) (cs : List Char) : Step Value :=
  match fuel, cs with
  | 0, _ => .error (.depth, cs.length)
  | _, [] => .error (.value, 0)
  | _ + 1, '"' :: rest =>
    (textBody cs.length (rest.length + 1) [] rest).map fun (ps, r) => (.ofParts ps, r)
  | fuel + 1, '[' :: rest =>
    if depth = 0 then .error (.depth, cs.length)
    else match skipSpace rest with
      | ']' :: r => .ok (.list [], r)
      | r => items fuel (depth - 1) [] r
  | fuel + 1, '\x7b' :: rest =>
    if depth = 0 then .error (.depth, cs.length)
    else match skipSpace rest with
      | '\x7d' :: r => .ok (.map [], r)
      | r => members fuel (depth - 1) [] r
  | _ + 1, _ =>
    match constant? cs with
    | some found => .ok found
    | none => number cs

def items (fuel depth : Nat) (read : List Value) (cs : List Char) : Step Value :=
  match fuel with
  | 0 => .error (.depth, cs.length)
  | fuel + 1 =>
    match element fuel depth cs with
    | .error e => .error e
    | .ok (v, rest) =>
      match skipSpace rest with
      | ']' :: r => .ok (.list (v :: read).reverse, r)
      | ',' :: r => items fuel depth (v :: read) (skipSpace r)
      | r => .error (.comma, r.length)

def members (fuel depth : Nat) (read : List (Value × Value)) (cs : List Char) : Step Value :=
  match fuel, cs with
  | 0, _ => .error (.depth, cs.length)
  | fuel + 1, '"' :: rest =>
    match textBody cs.length (rest.length + 1) [] rest with
    | .error e => .error e
    | .ok (key, rest) =>
      match skipSpace rest with
      | ':' :: r =>
        match element fuel depth (skipSpace r) with
        | .error e => .error e
        | .ok (v, rest) =>
          let read := Value.insert read (.ofParts key) v
          match skipSpace rest with
          | '\x7d' :: r => .ok (.map read, r)
          | ',' :: r => members fuel depth read (skipSpace r)
          | r => .error (.comma, r.length)
      | r => .error (.colon, r.length)
  | _, _ => .error (.name, cs.length)

end

def read (s : String) : Except Error Value :=
  let cs := s.toList
  let fail (f : Fault) (left : Nat) : Except Error Value := .error (errorAt cs f left)
  match cs with
  | '\uFEFF' :: _ => fail .mark cs.length
  | _ =>
    match element (2 * cs.length + 2) depthLimit (skipSpace cs) with
    | .error (f, left) => fail f left
    | .ok (v, rest) =>
      match skipSpace rest with
      | [] => .ok v
      | r => fail .extra r.length

end Polyglot.Json
