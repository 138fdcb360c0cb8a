import Polyglot.Markdown.Inline

/-!
Markdown as HTML.
-/

namespace Polyglot.Markdown

inductive Style where
  | html
  | xhtml
  deriving DecidableEq

def voidTags : List String := ["br", "hr", "img"]

def attributeText (attrs : List (String × List Char)) : List Char :=
  attrs.flatMap fun (n, s) => ' ' :: n.toList ++ "=\"".toList ++ s ++ ['"']

def startTag (style : Style) (tag : String) (attrs : List (String × List Char)) : List Char :=
  let close := if voidTags.contains tag && style = .xhtml then " />".toList else ['>']
  '<' :: tag.toList ++ attributeText attrs ++ close

def endTag (tag : String) : List Char :=
  "</".toList ++ tag.toList ++ ['>']

/--
A line of text. A break is followed by a new line, in place of blanks alone.
-/
def writeInline (style : Style) : Inline → List Char
  | .text s => escapeMarkup false s
  | .raw s => s
  | .element tag attrs children =>
    let start := startTag style tag attrs
    if tag == "br" then start ++ ['\n']
    else if voidTags.contains tag then start
    else start ++ all children ++ endTag tag
where
  all : List Inline → List Char
    | [] => []
    | i :: is => writeInline style i ++ all is

def dropBlankEnds : List Inline → List Inline
  | [] => []
  | [a] => [a]
  | a :: b :: rest =>
    let rest' := dropBlankEnds (b :: rest)
    match a, b with
    | .element "br" _ _, .text s => if isBlankText s then a :: dropBlankEnds rest else a :: rest'
    | _, _ => a :: rest'

structure Page where
  style : Style
  targets : Targets
  parts : List (List Char)

namespace Page

def line (p : Page) (cs : List Char) : List Char :=
  writeInline.all p.style (dropBlankEnds (readLine p.targets p.parts cs))

def onlyPart? (p : Page) (b : Block) : Option (List Char) :=
  if b.tag == "p" && b.children.isEmpty then
    match takeMark? b.text with
    | some (n, []) => (p.parts[n]?).filter isBlockPart
    | _ => none
  else none

/--
A block with what is inside it. A line ends behind each block, and in front of the first one inside
another where no text stands.
-/
def write (p : Page) : Block → List Char
  | ⟨tag, text, children, tail⟩ =>
    let start := startTag p.style tag []
    let own :=
      match p.onlyPart? ⟨tag, text, children, tail⟩ with
      | some part => part
      | none =>
        if tag == "hr" then start
        else if tag == "code" then
          start ++ escapeCode (Text.trimRight text ++ ['\n']) ++ endTag tag
        else
          let gap := if isBlankText text && !children.isEmpty && tag != "pre" then ['\n']
            else p.line text
          start ++ gap ++ all children ++ endTag tag
    let after := p.line tail
    own ++ if tag == "code" then [] else if isBlankText after then ['\n'] else after
where
  all : List Block → List Char
    | [] => []
    | b :: bs => write p b ++ all bs

end Page

/--
Tabs made into blanks up to the next column that is a multiple of the width of a tab.
-/
def expandTabs : Nat → List Char → List Char
  | _, [] => []
  | column, c :: cs =>
    if c == '\t' then
      let n := tabWidth - column % tabWidth
      List.replicate n ' ' ++ expandTabs (column + n) cs
    else if c == '\n' then c :: expandTabs 0 cs
    else c :: expandTabs (column + 1) cs

/--
A text with line feeds alone, without the signs that are used for marks, tabs, and blanks on lines
of blanks alone.
-/
def prepared (cs : List Char) : List Char :=
  let cs := cs.filter fun c => c != markStart && c != markEnd
  let ls := lines (expandTabs 0 (Text.unixLines cs ++ ['\n', '\n']))
  let clean (l : List Char) : List Char := if l.all (· == ' ') then [] else l
  unlines (match ls with
    | [] => []
    | l :: rest => l :: rest.map clean)

def toHtml (style : Style) (source : String) : String :=
  let cs := source.toList
  if isBlankText cs then ""
  else
    let (text, parts) := setAside (prepared cs)
    let (root, targets) := blocksOf text
    String.ofList (Text.trim (Page.write.all ⟨style, targets, parts⟩ root.children))

end Polyglot.Markdown
