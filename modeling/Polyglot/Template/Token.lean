import Polyglot.Number.Reading
import Polyglot.Template.Basic
import Polyglot.Text.Character
import Polyglot.Text.Quoted
import Polyglot.Text.Search

/-!
The tokens of a template: stretches of text, and between the signs of tags the words of expressions.

A sign with a minus takes the blank text beside it away, one with a plus keeps it. Otherwise the
settings say whether the line end behind a statement and the blanks before it are dropped.
-/

namespace Polyglot.Template

inductive Token where
  | text (s : String)
  | outputStart
  | outputEnd
  | statementStart
  | statementEnd
  | name (s : String)
  | str (s : String)
  | int (n : Int)
  | float (x : Binary64)
  | sign (s : String)
  deriving DecidableEq

inductive Tag where
  | raw
  | statement
  | output
  | comment
  deriving DecidableEq

inductive Trim where
  | strip
  | keep
  | default
  deriving DecidableEq

def takeTrim : List Char → Trim × List Char
  | '-' :: cs => (.strip, cs)
  | '+' :: cs => (.keep, cs)
  | cs => (.default, cs)

def statementClose : List Char := ['%', '\x7d']

def outputClose : List Char := ['\x7d', '\x7d']

def commentClose : List Char := ['#', '\x7d']

/--
What follows the end of a statement or comment, where it stands here. The Boolean says whether the
part taken ends a line.
-/
def closing? (close : List Char) (s : Settings) (cs : List Char) : Option (List Char × Bool) :=
  let stripped := (Text.after? ('-' :: close) cs).map fun rest =>
    let blank := rest.takeWhile Text.isBlank
    (rest.drop blank.length, blank.getLast? == some '\n')
  let kept := (Text.after? ('+' :: close) cs).map fun rest => (rest, false)
  let bare := (Text.after? close cs).map fun rest =>
    match rest with
    | '\n' :: more => if s.trimBlocks then (more, true) else (rest, false)
    | _ => (rest, false)
  stripped.or (kept.or bare)

def outputClosing? (cs : List Char) : Option (List Char × Bool) :=
  let stripped := (Text.after? ('-' :: outputClose) cs).map fun rest =>
    let blank := rest.takeWhile Text.isBlank
    (rest.drop blank.length, blank.getLast? == some '\n')
  stripped.or ((Text.after? outputClose cs).map fun rest => (rest, false))

def wordStatement? (word : String) (s : Settings) (cs : List Char) :
    Option (Trim × List Char × Bool) := do
  let cs ← Text.after? ['\x7b', '%'] cs
  let (trim, cs) := takeTrim cs
  let cs ← Text.after? word.toList (cs.dropWhile Text.isBlank)
  let (rest, ended) ← closing? statementClose s (cs.dropWhile Text.isBlank)
  return (trim, rest, ended)

def opening? (s : Settings) (cs : List Char) : Option (Tag × Trim × List Char × Bool) :=
  match cs with
  | '\x7b' :: '%' :: rest =>
    match wordStatement? "raw" { s with trimBlocks := false } cs with
    | some (trim, rest, ended) => some (.raw, trim, rest, ended)
    | none =>
      let (trim, rest) := takeTrim rest
      some (.statement, trim, rest, false)
  | '\x7b' :: '\x7b' :: rest =>
    let (trim, rest) := takeTrim rest
    some (.output, trim, rest, false)
  | '\x7b' :: '#' :: rest =>
    let (trim, rest) := takeTrim rest
    some (.comment, trim, rest, false)
  | _ => none

def trimBefore (s : Settings) (tag : Tag) (trim : Trim) (lineStart : Bool) (text : List Char) :
    List Char :=
  match trim with
  | .strip => Text.trimRight text
  | .keep => text
  | .default =>
    if s.stripBlocks && tag != .output then
      let last := (text.reverse.takeWhile (· != '\n')).reverse
      let before := text.take (text.length - last.length)
      if (!before.isEmpty || lineStart) && last.all Text.isBlank then before else text
    else text

def isIdentifierStart (c : Char) : Bool :=
  Text.isWord c && !Text.isDigit c

def takeDigits (isDigit : Char → Bool) : List Char → List Char × List Char
  | '_' :: c :: cs =>
    if isDigit c then
      let (ds, rest) := takeDigits isDigit cs
      (c :: ds, rest)
    else ([], '_' :: c :: cs)
  | c :: cs =>
    if isDigit c then
      let (ds, rest) := takeDigits isDigit cs
      (c :: ds, rest)
    else ([], c :: cs)
  | [] => ([], [])

def takeNumeral? (isDigit : Char → Bool) (cs : List Char) : Option (List Char × List Char) :=
  if cs.head?.any isDigit then some (takeDigits isDigit cs) else none

def fractionPart? (cs : List Char) : Option (List Char × List Char) :=
  match cs with
  | '.' :: rest => takeNumeral? Text.isAsciiDigit rest
  | _ => none

def exponentPart? (cs : List Char) : Option (Int × List Char) :=
  match cs with
  | e :: rest =>
    if e == 'e' || e == 'E' then
      let (down, rest) := Number.takeSign rest
      (takeNumeral? Text.isAsciiDigit rest).map fun (ds, rest) =>
        let n : Int := Text.ofDecimals ds
        (if down then -n else n, rest)
    else none
  | [] => none

def float? (cs : List Char) : Option (Binary64 × List Char) := do
  let (whole, rest) ← takeNumeral? Text.isAsciiDigit cs
  let done (ds : List Char) (power : Int) : Binary64 :=
    Binary64.ofDecimal false (Text.ofDecimals ds) power
  match fractionPart? rest with
  | some (part, rest) =>
    let low : Int := -part.length
    match exponentPart? rest with
    | some (n, rest) => return (done (whole ++ part) (n + low), rest)
    | none => return (done (whole ++ part) low, rest)
  | none =>
    let (n, rest) ← exponentPart? rest
    return (done whole n, rest)

/--
Digits behind the sign of a base; an underscore may stand before each.
-/
def basedDigits? (base : Nat) (cs : List Char) : Option (Nat × List Char) :=
  let isDigit (c : Char) : Bool := (Text.hexDigit? c).any (· < base)
  let cs := match cs with
    | '_' :: rest => rest
    | cs => cs
  (takeNumeral? isDigit cs).map fun (ds, rest) =>
    (ds.foldl (fun n d => n * base + (Text.hexDigit? d).getD 0) 0, rest)

def int? (cs : List Char) : Option (Nat × List Char) :=
  let based : Option (Nat × List Char) := match cs with
    | '0' :: b :: rest =>
      if b == 'b' || b == 'B' then basedDigits? 2 rest
      else if b == 'o' || b == 'O' then basedDigits? 8 rest
      else if b == 'x' || b == 'X' then basedDigits? 16 rest
      else none
    | _ => none
  based.or <|
    match cs with
    | '0' :: _ => (takeNumeral? (· == '0') cs).map fun (_, rest) => (0, rest)
    | _ => (takeNumeral? Text.isAsciiDigit cs).map fun (ds, rest) => (Text.ofDecimals ds, rest)

def quoted? (quote : Char) : List Char → Option (List Char × List Char)
  | [] => none
  | '\\' :: c :: cs => (quoted? quote cs).map fun (s, rest) => ('\\' :: c :: s, rest)
  | c :: cs =>
    if c == quote then some ([], cs) else (quoted? quote cs).map fun (s, rest) => (c :: s, rest)

def longSigns : List String := ["//", "**", "==", "!=", ">=", "<="]

def shortSigns : List Char := "+-/*%~[]()\x7b\x7d><=.:|,;".toList

def sign? (cs : List Char) : Option (String × List Char) :=
  (longSigns.findSome? fun s => (Text.after? s.toList cs).map fun rest => (s, rest)).or <|
    match cs with
    | c :: rest => if shortSigns.contains c then some (String.singleton c, rest) else none
    | [] => none

def word? (cs : List Char) : Option (Token × List Char) :=
  match float? cs with
  | some (x, rest) => some (.float x, rest)
  | none =>
    match int? cs with
    | some (n, rest) => some (.int n, rest)
    | none =>
      match cs with
      | [] => none
      | c :: rest =>
        if Text.isWord c then
          if isIdentifierStart c then
            some (.name (String.ofList (cs.takeWhile Text.isWord)), cs.dropWhile Text.isWord)
          else none
        else if c == '\'' || c == '"' then do
          let (s, rest) ← quoted? c rest
          return (.str (String.ofList (← Text.unescape? s)), rest)
        else (sign? cs).map fun (s, rest) => (.sign s, rest)

/--
The brackets that are open after a sign, the innermost first. Brackets have to match.
-/
def balance? (opened : List Char) : Token → Option (List Char)
  | .sign "(" => some (')' :: opened)
  | .sign "[" => some (']' :: opened)
  | .sign "\x7b" => some ('\x7d' :: opened)
  | .sign ")" => close ')'
  | .sign "]" => close ']'
  | .sign "\x7d" => close '\x7d'
  | _ => some opened
where
  close (c : Char) : Option (List Char) :=
    match opened with
    | d :: rest => if c == d then some rest else none
    | [] => none

/--
The words of a tag up to its end. A text that ends inside a tag has no further words.
-/
def words? (closing : List Char → Option (List Char × Bool)) (last : Token) :
    Nat → List Char → List Char → Option (List Token × List Char × Bool)
  | 0, _, _ => none
  | fuel + 1, opened, cs =>
    match if opened.isEmpty then closing cs else none with
    | some (rest, ended) => some ([last], rest, ended)
    | none =>
      match cs with
      | [] => some ([], [], false)
      | c :: rest =>
        if Text.isBlank c then words? closing last fuel opened rest
        else do
          let (t, rest) ← word? cs
          let opened ← balance? opened t
          let (ts, rest, ended) ← words? closing last fuel opened rest
          return (t :: ts, rest, ended)

def skipComment? (s : Settings) : List Char → Option (List Char × Bool)
  | [] => none
  | c :: cs =>
    match closing? commentClose s (c :: cs) with
    | some found => some found
    | none => skipComment? s cs

def rawText? (s : Settings) : List Char → Option (List Char × Trim × List Char × Bool)
  | [] => none
  | c :: cs =>
    match wordStatement? "endraw" s (c :: cs) with
    | some (trim, rest, ended) => some ([], trim, rest, ended)
    | none => (rawText? s cs).map fun (text, more) => (c :: text, more)

def upToTag (s : Settings) : List Char → List Char × Option (Tag × Trim × List Char × Bool)
  | [] => ([], none)
  | c :: cs =>
    match opening? s (c :: cs) with
    | some found => ([], some found)
    | none =>
      let (text, found) := upToTag s cs
      (c :: text, found)

def textToken (cs : List Char) : List Token :=
  if cs.isEmpty then [] else [.text (String.ofList cs)]

def scan? (s : Settings) : Nat → Bool → List Char → Option (List Token)
  | 0, _, _ => none
  | fuel + 1, lineStart, cs =>
    match upToTag s cs with
    | (text, none) => some (textToken text)
    | (text, some (tag, trim, rest, ended)) => do
      let text := textToken (trimBefore s tag trim lineStart text)
      match tag with
      | .comment =>
        let (rest, ended) ← skipComment? s rest
        return text ++ (← scan? s fuel ended rest)
      | .raw =>
        let (inner, trim, rest, after) ← rawText? s rest
        return text ++ textToken (trimBefore s .raw trim ended inner) ++ (← scan? s fuel after rest)
      | .statement =>
        let (ts, rest, ended) ←
          words? (closing? statementClose s) .statementEnd (rest.length + 1) [] rest
        return text ++ .statementStart :: ts ++ (← scan? s fuel ended rest)
      | .output =>
        let (ts, rest, ended) ← words? outputClosing? .outputEnd (rest.length + 1) [] rest
        return text ++ .outputStart :: ts ++ (← scan? s fuel ended rest)

/--
The tokens of a template. One line end at the end of the text is dropped unless it is to be kept.
-/
def tokens? (s : Settings) (source : String) : Option (List Token) :=
  let cs := Text.unixLines source.toList
  let cs := if !s.keepLastNewline && cs.getLast? == some '\n' then cs.dropLast else cs
  scan? s (cs.length + 1) true cs

end Polyglot.Template
