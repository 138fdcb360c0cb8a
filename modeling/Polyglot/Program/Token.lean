import Polyglot.Number.Reading
import Polyglot.Program.Basic
import Polyglot.Text.Quoted
import Polyglot.Text.Search

/-!
The tokens of a program. Lines are indented as far as the block they stand in; inside brackets line
ends do not count.
-/

namespace Polyglot.Program

inductive Token where
  | name (s : String)
  | constant (v : Value)
  | str (s : String)
  | bytes (bs : List UInt8)
  | sign (s : String)
  | newLine
  | indent
  | dedent
  | wrong (e : Error)

def Token.isSign (s : String) : Token → Bool
  | sign t => s == t
  | _ => false

def Token.isName (s : String) : Token → Bool
  | name t => s == t
  | _ => false

def signs : List String :=
  ["**=", "//=", ">>=", "<<=", "...", "->", ":=", "==", "!=", "<=", ">=", "+=", "-=", "*=", "/=",
    "%=", "@=", "&=", "|=", "^=", "**", "//", "<<", ">>", "+", "-", "*", "/", "%", "@", "&", "|",
    "^", "~", "<", ">", "(", ")", "[", "]", "\x7b", "\x7d", ",", ":", ".", ";", "="]

def isNameStart (c : Char) : Bool :=
  Text.isWord c && !Text.isDigit c

def takeDigits (isDigit : Char → Bool) : List Char → List Char × List Char
  | '_' :: c :: cs =>
    if isDigit c then
      let (ds, rest) := takeDigits isDigit cs
      (c :: ds, rest)
    else ([], '_' :: c :: cs)
  | c :: cs =>
    if isDigit c then
      let (ds, rest) := takeDigits isDigit cs
      (c :: ds, rest)
    else ([], c :: cs)
  | [] => ([], [])

def takeNumeral (isDigit : Char → Bool) (cs : List Char) : List Char × List Char :=
  if cs.head?.any isDigit then takeDigits isDigit cs else ([], cs)

def based? (base : Nat) (cs : List Char) : Option (Value × List Char) :=
  let isDigit (c : Char) : Bool := (Text.hexDigit? c).any (· < base)
  let cs := match cs with
    | '_' :: rest => rest
    | cs => cs
  let (ds, rest) := takeNumeral isDigit cs
  if ds.isEmpty then none
  else some (.int (ds.foldl (fun n d => n * base + (Text.hexDigit? d).getD 0) 0 : Nat), rest)

def exponent? (cs : List Char) : Option (Int × List Char) :=
  match cs with
  | e :: rest =>
    if e == 'e' || e == 'E' then
      let (down, rest) := Number.takeSign rest
      let (ds, rest) := takeNumeral Text.isAsciiDigit rest
      let n : Int := Text.ofDecimals ds
      if ds.isEmpty then none else some (if down then -n else n, rest)
    else none
  | [] => none

def decimal? (cs : List Char) : Option (Value × List Char) :=
  let (whole, rest) := takeNumeral Text.isAsciiDigit cs
  let (hasPoint, part, rest) := match rest with
    | '.' :: more =>
      let (ds, more) := takeNumeral Text.isAsciiDigit more
      (true, ds, more)
    | _ => (false, [], rest)
  if whole.isEmpty && part.isEmpty then none
  else
    let value (power : Int) : Value :=
      .float (Binary64.ofDecimal false (Text.ofDecimals (whole ++ part)) (power - part.length))
    match exponent? rest with
    | some (n, rest) => some (value n, rest)
    | none =>
      if hasPoint then some (value 0, rest)
      else if whole.head? == some '0' && !whole.all (· == '0') then none
      else if whole.length > Number.digitLimit then none
      else some (.int (Text.ofDecimals whole), rest)

def tailWords : List String :=
  ["and", "else", "for", "if", "in", "is", "or", "not"]

def number? (cs : List Char) : Option (Value × List Char) := do
  let (v, rest) ← match cs with
    | '0' :: b :: more =>
      if b == 'x' || b == 'X' then based? 16 more
      else if b == 'o' || b == 'O' then based? 8 more
      else if b == 'b' || b == 'B' then based? 2 more
      else decimal? cs
    | _ => decimal? cs
  let (v, rest) := match rest with
    | j :: more => if j == 'j' || j == 'J' then (Value.object "complex", more) else (v, rest)
    | [] => (v, rest)
  let isTail := tailWords.any fun w => Text.startsWith w.toList rest
  if rest.head?.any Text.isWord && !isTail then none else some (v, rest)

/--
The text up to closing quotes; a text in single quotes ends with its line.
-/
def quoted? (close : List Char) : List Char → Option (List Char × List Char)
  | [] => none
  | '\\' :: c :: cs => (quoted? close cs).map fun (s, rest) => ('\\' :: c :: s, rest)
  | c :: cs =>
    match Text.after? close (c :: cs) with
    | some rest => some ([], rest)
    | none =>
      if c == '\n' && close.length == 1 then none
      else (quoted? close cs).map fun (s, rest) => (c :: s, rest)

def quote? (cs : List Char) : Option (List Char × List Char) :=
  match cs with
  | '"' :: '"' :: '"' :: rest => some (['"', '"', '"'], rest)
  | '\'' :: '\'' :: '\'' :: rest => some (['\'', '\'', '\''], rest)
  | '"' :: rest => some (['"'], rest)
  | '\'' :: rest => some (['\''], rest)
  | _ => none

/--
The letters that may stand in front of a text and what they ask for: raw text, bytes, and parts that
are worked out.
-/
def textMarks : List (String × Bool × Bool × Bool) :=
  [("", false, false, false), ("r", true, false, false), ("u", false, false, false),
    ("b", false, true, false), ("f", false, false, true), ("br", true, true, false),
    ("rb", true, true, false), ("fr", true, false, true), ("rf", true, false, true)]

/--
A text in quotes. The outer nothing means that no text starts here, the inner one that it is wrong.
-/
def text? (cs : List Char) : Option (Option (Token × List Char)) := do
  let letters := cs.takeWhile Text.isAsciiLetter
  let (raw, isBytes, isFilled) ← textMarks.lookup (String.ofList (letters.map Char.toLower))
  let (close, rest) ← quote? (cs.drop letters.length)
  return do
    let (s, rest) ← quoted? close rest
    let plain ← if raw then some s else Text.unescape? s
    if isBytes then
      if s.any (127 < ·.toNat) || plain.any (255 < ·.toNat) then none
      else return (.bytes (plain.map fun c => UInt8.ofNat c.toNat), rest)
    else if isFilled && s.contains '\x7b' then return (.constant (.object "str"), rest)
    else return (.str (String.ofList plain), rest)

def indentation : Nat → Nat → List Char → Nat × Nat × List Char
  | w, n, ' ' :: cs => indentation (w + 1) (n + 1) cs
  | w, n, '\t' :: cs => indentation ((w / 8 + 1) * 8) (n + 1) cs
  | _, _, '\x0c' :: cs => indentation 0 0 cs
  | w, n, cs => (w, n, cs)

structure Scan where
  tokens : List Token := []
  levels : List (Nat × Nat) := [(0, 0)]
  opened : List Char := []

namespace Scan

def emit (s : Scan) (t : Token) : Scan :=
  { s with tokens := t :: s.tokens }

def close (s : Scan) (width narrow : Nat) : List (Nat × Nat) → Except Error Scan
  | [] => .error .indentation
  | (w, n) :: levels =>
    if width < w then (s.emit .dedent).close width narrow levels
    else if width = w then
      if narrow = n then .ok { s with levels := (w, n) :: levels } else .error .tabs
    else .error .indentation

def indentTo (s : Scan) (width narrow : Nat) : Except Error Scan :=
  match s.levels with
  | (w, n) :: _ =>
    if w < width then
      if narrow ≤ n then .error .tabs
      else .ok ({ s with levels := (width, narrow) :: s.levels }.emit .indent)
    else s.close width narrow s.levels
  | [] => .ok s

def bracket (s : Scan) (sign : String) : Option Scan :=
  let open_ (c : Char) : Option Scan := some { s with opened := c :: s.opened }
  let close_ (c : Char) : Option Scan :=
    match s.opened with
    | d :: rest => if c == d then some { s with opened := rest } else none
    | [] => none
  match sign with
  | "(" => open_ ')'
  | "[" => open_ ']'
  | "\x7b" => open_ '\x7d'
  | ")" => close_ ')'
  | "]" => close_ ']'
  | "\x7d" => close_ '\x7d'
  | _ => some s

def isLineStart (s : Scan) : Bool :=
  match s.tokens with
  | [] | .newLine :: _ | .dedent :: _ => true
  | _ => false

/--
The end of the text: the last line ends, and all blocks are closed.
-/
def finish (s : Scan) : Except Error Scan :=
  if !s.opened.isEmpty then .error .syntaxFault
  else
    let s := if s.isLineStart then s else s.emit .newLine
    .ok ((s.levels.drop 1).foldl (fun s _ => s.emit .dedent) s)

def isLineEnd (cs : List Char) : Bool :=
  cs.isEmpty || cs.head? == some '\n' || cs.head? == some '#'

/--
Reads on; `fresh` says whether a line starts here. What has been read comes back also where something
is wrong.
-/
def run : Nat → Bool → Scan → List Char → Scan × Option Error
  | 0, _, s, _ => (s, none)
  | fuel + 1, fresh, s, cs =>
    let ended (r : Except Error Scan) (next : Scan → Scan × Option Error) : Scan × Option Error :=
      match r with
      | .ok s => next s
      | .error e => (s, some e)
    if fresh && s.opened.isEmpty then
      let (width, narrow, rest) := indentation 0 0 cs
      if isLineEnd rest then
        match rest.dropWhile (· != '\n') with
        | [] => ended s.finish fun s => (s, none)
        | _ :: more => run fuel true s more
      else ended (s.indentTo width narrow) fun s => run fuel false s rest
    else
      match cs with
      | [] => ended s.finish fun s => (s, none)
      | c :: rest =>
        if c == ' ' || c == '\t' || c == '\x0c' then run fuel false s rest
        else if c == '#' then run fuel false s (rest.dropWhile (· != '\n'))
        else if c == '\n' then
          if s.opened.isEmpty then run fuel true (s.emit .newLine) rest else run fuel false s rest
        else if c == '\\' then
          match rest with
          | '\n' :: more => if more.isEmpty then (s, some .syntaxFault) else run fuel false s more
          | _ => (s, some .syntaxFault)
        else match text? cs with
        | some (some (t, rest)) => run fuel false (s.emit t) rest
        | some none => (s, some .syntaxFault)
        | none =>
          if Text.isAsciiDigit c || (c == '.' && rest.head?.any Text.isAsciiDigit) then
            match number? cs with
            | some (v, rest) => run fuel false (s.emit (.constant v)) rest
            | none => (s, some .syntaxFault)
          else if isNameStart c then
            let n := cs.takeWhile Text.isWord
            run fuel false (s.emit (.name (String.ofList n))) (cs.drop n.length)
          else
            let sign? := signs.findSome? fun t => (Text.after? t.toList cs).map fun rest => (t, rest)
            match sign?.bind fun (t, rest) => (s.bracket t).map fun s => (s.emit (.sign t), rest) with
            | some (s, rest) => run fuel false s rest
            | none => (s, some .syntaxFault)

end Scan

/--
The tokens of a program. Where it cannot be taken apart any further stands what is wrong.
-/
def tokens (source : String) : List Token :=
  let cs := Text.unixLines source.toList
  let cs := match cs with
    | '\uFEFF' :: rest => rest
    | cs => cs
  let (s, e) := Scan.run (2 * cs.length + 4) true {} cs
  s.tokens.reverse ++ (e.map Token.wrong).toList

end Polyglot.Program
