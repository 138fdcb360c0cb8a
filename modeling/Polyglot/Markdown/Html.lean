import Polyglot.Text.Character
import Polyglot.Text.Search

/-!
Raw HTML in Markdown: elements that start a line are set aside as they are.

What is set aside leaves a mark in the text: its number between two signs that no text holds.
-/

namespace Polyglot.Markdown

def markStart : Char := '\x02'

def markEnd : Char := '\x03'

def mark (n : Nat) : List Char :=
  markStart :: (toString n).toList ++ [markEnd]

def takeMark? : List Char → Option (Nat × List Char)
  | c :: cs =>
    if c == markStart then
      let ds := cs.takeWhile Text.isAsciiDigit
      match cs.drop ds.length with
      | d :: rest => if d == markEnd then some (Text.ofDecimals ds, rest) else none
      | [] => none
    else none
  | [] => none

def blockTags : List String :=
  ["address", "article", "aside", "blockquote", "details", "div", "dl", "fieldset", "figcaption",
    "figure", "footer", "form", "h1", "h2", "h3", "h4", "h5", "h6", "header", "hgroup", "hr", "main",
    "menu", "nav", "ol", "p", "pre", "section", "table", "ul", "canvas", "colgroup", "dd", "body",
    "dt", "group", "html", "iframe", "li", "legend", "math", "map", "noscript", "output", "object",
    "option", "progress", "script", "style", "summary", "tbody", "td", "textarea", "tfoot", "th",
    "thead", "tr", "video"]

inductive HtmlTag where
  | opening (name : String)
  | closing (name : String)
  | empty (name : String)
  | comment

def tagText? : Option Char → List Char → Option (List Char × List Char)
  | _, [] => none
  | some q, c :: cs => (tagText? (if c == q then none else some q) cs).map fun (t, r) => (c :: t, r)
  | none, c :: cs =>
    if c == '>' then some ([c], cs)
    else if c == '<' then none
    else (tagText? (if c == '"' || c == '\'' then some c else none) cs).map fun (t, r) => (c :: t, r)

def commentText? : List Char → Option (List Char × List Char)
  | '-' :: '-' :: '>' :: cs => some (['-', '-', '>'], cs)
  | c :: cs => (commentText? cs).map fun (t, r) => (c :: t, r)
  | [] => none

def tagName (cs : List Char) : String :=
  Text.lower (String.ofList (cs.takeWhile fun c => !Text.isBlank c && c != '/' && c != '>'))

def takeTag? (cs : List Char) : Option (HtmlTag × List Char × List Char) :=
  match cs with
  | '<' :: '!' :: '-' :: '-' :: rest =>
    (commentText? rest).map fun (t, rest) => (.comment, '<' :: '!' :: '-' :: '-' :: t, rest)
  | '<' :: '/' :: c :: rest =>
    if Text.isAsciiLetter c then
      (tagText? none (c :: rest)).map fun (t, rest) => (.closing (tagName t), '<' :: '/' :: t, rest)
    else none
  | '<' :: c :: rest =>
    if Text.isAsciiLetter c then
      (tagText? none (c :: rest)).map fun (t, rest) =>
        let name := tagName t
        let isEmpty := Text.startsWith ['>', '/'] t.reverse || name == "hr"
        (if isEmpty then .empty name else .opening name, '<' :: t, rest)
    else none
  | _ => none

def blankFollows (cs : List Char) : Bool :=
  match cs.dropWhile (· == ' ') with
  | '\n' :: rest => (rest.dropWhile (· == ' ')).head? == some '\n'
  | _ => false

/--
A text whose elements are being set aside: the text so far and the parts so far, both last first, and
the elements that are open with what has been read of them.
-/
structure Extraction where
  text : List Char := []
  parts : List (List Char) := []
  opened : List String := []
  raw : List Char := []
  column : Nat := 0
  blankLine : Bool := true

namespace Extraction

def advance (e : Extraction) (cs : List Char) : Extraction :=
  cs.foldl (fun e c =>
    if c == '\n' then { e with column := 0, blankLine := true }
    else { e with column := e.column + 1, blankLine := e.blankLine && Text.isBlank c }) e

def say (e : Extraction) (cs : List Char) : Extraction :=
  { e with text := cs.reverse ++ e.text }

def keep (e : Extraction) (cs : List Char) : Extraction :=
  { e with raw := cs.reverse ++ e.raw }

def setAside (e : Extraction) (part : List Char) : Extraction :=
  { e with text := '\n' :: '\n' :: (mark e.parts.length).reverse ++ e.text, parts := part :: e.parts }

def atLineStart (e : Extraction) : Bool :=
  e.column ≤ 3 && e.blankLine

def isRaw (e : Extraction) : Bool :=
  !e.opened.isEmpty

/--
Ends the element that has been read, once nothing in it is open.
-/
def finish (e : Extraction) (rest : List Char) : Extraction :=
  if e.isRaw then e
  else
    let part := e.raw.reverse ++ if blankFollows rest then ['\n'] else []
    { e with raw := [] }.setAside part

def standAlone (e : Extraction) (isBlock : Bool) (t rest : List Char) : Extraction :=
  if e.isRaw then e.keep t
  else if isBlock && e.atLineStart then
    let e := match e.text with
      | '\n' :: '\n' :: _ => e
      | '\n' :: _ => e.say ['\n']
      | _ => e
    e.setAside (t ++ if blankFollows rest then ['\n'] else [])
  else e.say t

def tag (e : Extraction) (tag : HtmlTag) (t rest : List Char) : Extraction :=
  match tag with
  | .comment => e.standAlone true t rest
  | .empty name => e.standAlone (blockTags.contains name) t rest
  | .opening name =>
    if e.isRaw then { e with opened := name :: e.opened }.keep t
    else if blockTags.contains name && e.atLineStart then
      { e with opened := [name] }.say ['\n'] |>.keep t
    else e.say t
  | .closing name =>
    if e.isRaw then
      let e := e.keep t
      if e.opened.contains name then
        { e with opened := (e.opened.dropWhile (· != name)).drop 1 }.finish rest
      else e
    else e.say t

def run : Nat → List Char → Extraction → Extraction
  | 0, _, e => e
  | _, [], e => e
  | fuel + 1, c :: cs, e =>
    match if c == '<' then takeTag? (c :: cs) else none with
    | some (tag, t, rest) => run fuel rest ((e.tag tag t rest).advance t)
    | none => run fuel cs ((if e.isRaw then e.keep [c] else e.say [c]).advance [c])

end Extraction

/--
The text with marks in place of raw elements, and the elements in order. What is never closed is
set aside to the end.
-/
def setAside (cs : List Char) : List Char × List (List Char) :=
  let e := Extraction.run (cs.length + 1) cs {}
  let e := if e.isRaw then { e with raw := [], opened := [] }.setAside e.raw.reverse else e
  (e.text.reverse, e.parts.reverse)

def isBlockPart (part : List Char) : Bool :=
  match part with
  | '<' :: rest =>
    let rest := match rest with
      | '/' :: more => more
      | _ => rest
    match rest with
    | c :: _ =>
      ['!', '?', '@', '%'].contains c ||
        blockTags.contains
          (Text.lower (String.ofList (rest.takeWhile fun c => c != ' ' && c != '>')))
    | [] => false
  | _ => false

end Polyglot.Markdown
