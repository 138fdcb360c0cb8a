import Polyglot.Table
import Polyglot.Text.Character
import Polyglot.Text.Search

/-!
The blocks of a Markdown text: headings, paragraphs, lists, quotes, code and rules.

Blocks are parted by blank lines. A block is read by the first rule that recognises it; what a rule
leaves of it is read again as a block.
-/

namespace Polyglot.Markdown

/--
A block: the name of its element, its text, the blocks inside it, and the text that follows it inside
the block around it.
-/
structure Block where
  tag : String
  text : List Char := []
  children : List Block := []
  tail : List Char := []

structure Target where
  address : String
  title : Option String

abbrev Targets := Table String Target

/--
Where blocks are being read.
-/
inductive Place where
  | tightList
  | looseList
  | dedented
  | quote
  deriving DecidableEq

def tabWidth : Nat := 4

def tab : List Char := List.replicate tabWidth ' '

def lines (cs : List Char) : List (List Char) :=
  Text.pieces '\n' cs

def unlines (ls : List (List Char)) : List Char :=
  Text.join ['\n'] ls

def isBlankText (cs : List Char) : Bool :=
  cs.all Text.isBlank

def chunks (cs : List Char) : List (List Char) :=
  go (cs.length + 1) cs
where
  go : Nat → List Char → List (List Char)
    | 0, cs => [cs]
    | fuel + 1, cs =>
      match Text.cut? ['\n', '\n'] cs with
      | some (before, rest) => before :: go fuel rest
      | none => [cs]

def nearStart? (line : List Char) : Option (List Char) :=
  let spaces := line.takeWhile (· == ' ')
  if spaces.length < tabWidth then some (line.drop spaces.length) else none

namespace Block

def isList (b : Block) : Bool :=
  b.tag == "ul" || b.tag == "ol"

def isCode (b : Block) : Bool :=
  b.tag == "pre" && (b.children.head?.any (·.tag == "code"))

def last? (b : Block) : Option Block :=
  b.children.getLast?

def push (b child : Block) : Block :=
  { b with children := b.children ++ [child] }

def setLast (b child : Block) : Block :=
  { b with children := b.children.dropLast ++ [child] }

def wrapText (b : Block) : Block :=
  if b.text.isEmpty then b
  else { b with text := [], children := { tag := "p", text := b.text } :: b.children }

def wrapTail (b : Block) : Block :=
  match b.last? with
  | some c =>
    if c.tail.isEmpty then b
    else (b.setLast { c with tail := [] }).push { tag := "p", text := Text.trimLeft c.tail }
  | none => b

def extendCode (b : Block) (f : List Char → List Char) : Block :=
  match b.children with
  | c :: rest => { b with children := { c with text := f c.text } :: rest }
  | [] => b

end Block

def itemContent? (line : List Char) : Option (Bool × List Char) := do
  let cs ← nearStart? line
  let (numbered, rest) ←
    match cs with
    | c :: rest =>
      if c == '*' || c == '+' || c == '-' then some (false, rest)
      else
        match cs.dropWhile Text.isDecimal with
        | '.' :: rest => if Text.isDecimal c then some (true, rest) else none
        | _ => none
    | [] => none
  if rest.head? == some ' ' then some (numbered, rest.dropWhile (· == ' ')) else none

def isNestedItem (line : List Char) : Bool :=
  match Text.after? tab line with
  | some rest => (itemContent? rest).isSome
  | none => false

/--
The items of a block of list lines; lines that start no item belong to the one before.
-/
def listItems (ls : List (List Char)) : List (List Char) :=
  (ls.foldl add []).reverse
where
  add (items : List (List Char)) (line : List Char) : List (List Char) :=
    match itemContent? line, items with
    | some (_, content), _ => content :: items
    | none, [] => [line]
    | none, item :: rest =>
      if isNestedItem line && !Text.startsWith tab item then line :: items
      else (item ++ '\n' :: line) :: rest

def dedentCode (cs : List Char) : List Char × List Char :=
  let (code, rest) := go (lines cs)
  (unlines code, unlines rest)
where
  go : List (List Char) → List (List Char) × List (List Char)
    | [] => ([], [])
    | line :: ls =>
      let content := match Text.after? tab line with
        | some more => some more
        | none => if isBlankText line then some [] else none
      match content with
      | some c =>
        let (code, rest) := go ls
        (c :: code, rest)
      | none => ([], line :: ls)

def dedent (level : Nat) (cs : List Char) : List Char :=
  let indent := List.replicate (tabWidth * level) ' '
  unlines ((lines cs).map fun line => (Text.after? indent line).getD line)

/--
The lines before the first one that is recognised, what it was recognised as, and those behind it.
-/
def findLine? {α : Type} (read : List Char → Option α) :
    List (List Char) → Option (List (List Char) × α × List (List Char))
  | [] => none
  | line :: ls =>
    match read line with
    | some a => some ([], a, ls)
    | none => (findLine? read ls).map fun (before, a, after) => (line :: before, a, after)

/--
The number signs at the end of a heading are left out, but not one behind a backslash.
-/
def dropSigns (cs : List Char) : List Char :=
  let signs := (cs.reverse.takeWhile (· == '#')).length
  let body := cs.take (cs.length - signs)
  let slashes := (body.reverse.takeWhile (· == '\\')).length
  if slashes % 2 = 1 && 0 < signs then body ++ ['#'] else body

def heading? (line : List Char) : Option Block :=
  let level := (line.takeWhile (· == '#')).length
  if level = 0 then none
  else
    let n := min level 6
    let rest := line.drop n
    let slashes := (rest.reverse.takeWhile (· == '\\')).length
    if slashes % 2 = 1 then none
    else some { tag := "h" ++ toString n, text := Text.trim (dropSigns rest) }

def underline? (line : List Char) : Option Nat :=
  let signs := (line.reverse.dropWhile (· == ' ')).reverse
  if !signs.isEmpty && signs.all (fun c => c == '=' || c == '-') then
    some (if signs.head? == some '=' then 1 else 2)
  else none

def isRule (line : List Char) : Bool :=
  match nearStart? line with
  | none => false
  | some cs =>
    match cs with
    | [] => false
    | sign :: _ =>
      let body := (cs.reverse.dropWhile (· == ' ')).reverse
      (sign == '-' || sign == '_' || sign == '*') && body.all (fun c => c == sign || c == ' ') &&
        3 ≤ body.count sign && !Text.contains [' ', ' ', ' '] body

def quoteLine? (line : List Char) : Option (List Char) := do
  match ← nearStart? line with
  | '>' :: ' ' :: rest => some rest
  | '>' :: rest => some rest
  | _ => none

def unquote (line : List Char) : List Char :=
  if Text.trim line == ['>'] then [] else (quoteLine? line).getD line

def quotedTitle? (cs : List Char) : Option (List Char × List Char) :=
  let line := cs.takeWhile (· != '\n')
  let rest := cs.drop line.length
  let body := (line.reverse.dropWhile (· == ' ')).reverse
  match body with
  | q :: more =>
    let close := if q == '(' then ')' else q
    if (q == '"' || q == '\'' || q == '(') && 1 ≤ more.length && more.getLast? == some close then
      some (more.dropLast, rest)
    else none
  | [] => none

def lineEnds (cs : List Char) : Bool :=
  cs.isEmpty || cs.head? == some '\n'

def definition? (cs : List Char) : Option (String × Target × List Char) := do
  let rest ← match ← nearStart? cs with
    | '[' :: rest => some rest
    | _ => none
  let name := rest.takeWhile fun c => c != '[' && c != ']'
  let rest ← Text.after? [']', ':'] (rest.drop name.length)
  let rest := match rest.dropWhile (· == ' ') with
    | '\n' :: more => more.dropWhile (· == ' ')
    | rest => rest
  let address := rest.takeWhile fun c => !Text.isBlank c
  if address.isEmpty then none
  else
    let rest := (rest.drop address.length).dropWhile (· == ' ')
    let nextLine := match rest with
      | '\n' :: more => more.dropWhile (· == ' ')
      | _ => rest
    let trimmed := (((address.dropWhile (· == '<')).reverse).dropWhile (· == '>')).reverse
    let key := String.ofList (Text.trim name)
    match (quotedTitle? nextLine).filter fun t => lineEnds t.2 with
    | some (title, rest) => some (key, ⟨String.ofList trimmed, some (String.ofList title)⟩, rest)
    | none => if lineEnds rest then some (key, ⟨String.ofList trimmed, none⟩, rest) else none

def findDefinition? (cs : List Char) : Option (List Char × String × Target × List Char) :=
  go [] (lines cs)
where
  go (before : List (List Char)) : List (List Char) →
      Option (List Char × String × Target × List Char)
    | [] => none
    | line :: ls =>
      match definition? (unlines (line :: ls)) with
      | some (name, target, rest) => some (unlines before, name, target, rest)
      | none => go (before ++ [line]) ls

def dropBreaks (cs : List Char) : List Char :=
  cs.dropWhile (· == '\n')

abbrev Reading := StateM Targets

def descend (indent : Nat) : Nat → Nat → Block → Nat × Nat
  | 0, level, _ => (level, 0)
  | fuel + 1, level, b =>
    if level < indent then
      match b.last? with
      | some c =>
        if c.isList || c.tag == "li" then
          let (level, steps) := descend indent fuel (if c.isList then level + 1 else level) c
          (level, steps + 1)
        else (level, 0)
      | none => (level, 0)
    else (level, 0)

def atDepth (f : Block → Reading Block) : Nat → Block → Reading Block
  | 0, b => f b
  | n + 1, b =>
    match b.last? with
    | some c => do return b.setLast (← atDepth f n c)
    | none => f b

def atLast (f : Block → Reading Block) (b : Block) : Reading Block :=
  match b.last? with
  | some c => do return b.setLast (← f c)
  | none => return b

def addText (isTight : Bool) (parent : Block) (block : List Char) : Block :=
  if isBlankText block then parent
  else if isTight then
    match parent.last? with
    | some c =>
      parent.setLast { c with tail := c.tail ++ '\n' :: block }
    | none =>
      let text := Text.trimLeft block
      { parent with text := if parent.text.isEmpty then text else parent.text ++ '\n' :: text }
  else parent.push { tag := "p", text := Text.trimLeft block }

def addCode (parent : Block) (code : List Char) : Block :=
  let code := Text.trimRight code
  match parent.last? with
  | some c =>
    if c.isCode then
      parent.setLast (c.extendCode fun text => text ++ '\n' :: code ++ ['\n'])
    else parent.push { tag := "pre", children := [{ tag := "code", text := code ++ ['\n'] }] }
  | none => parent.push { tag := "pre", children := [{ tag := "code", text := code ++ ['\n'] }] }

def addBlank (parent : Block) (filler : List Char) : Block :=
  match parent.last? with
  | some c => if c.isCode then parent.setLast (c.extendCode (· ++ filler)) else parent
  | none => parent

def readInto : Nat → List Place → Block → List (List Char) → Reading Block
  | 0, _, parent, _ => return parent
  | _, _, parent, [] => return parent
  | fuel + 1, places, parent, block :: rest => do
    let place := places.head?
    let again (more : List Char) : List (List Char) := if more.isEmpty then rest else more :: rest
    let isItem := parent.tag == "li"
    if block.isEmpty then readInto fuel places (addBlank parent ['\n', '\n']) rest
    else if block.head? == some '\n' then
      readInto fuel places (addBlank parent ['\n']) (again (block.drop 1))
    else if Text.startsWith tab block && place != some .dedented &&
        (isItem || parent.last?.any (·.isList)) then
      let width := (block.takeWhile (· == ' ')).length / tabWidth
      let start := if place == some .tightList then 1 else 0
      let (level, steps) := descend width (block.length + 1) start parent
      let inner := dedent level block
      let read := readInto fuel (.dedented :: places)
      let parent ←
        if isItem then
          if parent.last?.any (·.isList) then atLast (fun c => read c [inner]) parent
          else read parent [inner]
        else
          atDepth (fun b => do
            if b.tag == "li" then read b [inner]
            else if b.last?.any (·.tag == "li") then
              atLast (fun c => read c.wrapText (chunks inner)) b
            else return b.push (← read { tag := "li" } [inner])) steps parent
      readInto fuel places parent rest
    else if Text.startsWith tab block then
      let (code, more) := dedentCode block
      readInto fuel places (addCode parent code) (again more)
    else match findLine? heading? (lines block) with
    | some (before, h, after) =>
      let parent ← if before.isEmpty then pure parent
        else readInto fuel places parent [unlines before]
      let after := unlines after
      let after := if place == some .looseList then dedent 1 after else after
      readInto fuel places (parent.push h) (again after)
    | none =>
    match lines block with
    | first :: second :: more =>
      match underline? second with
      | some n =>
        let h : Block := { tag := "h" ++ toString n, text := Text.trim first }
        readInto fuel places (parent.push h) (again (unlines more))
      | none => readOther fuel places parent block rest
    | _ => readOther fuel places parent block rest
where
  readOther (fuel : Nat) (places : List Place) (parent : Block) (block : List Char)
      (rest : List (List Char)) : Reading Block := do
    let place := places.head?
    let again (more : List Char) : List (List Char) := if more.isEmpty then rest else more :: rest
    match findLine? (fun l => if isRule l then some () else none) (lines block) with
    | some (before, _, after) =>
      let before := unlines before
      let before := (dropBreaks before.reverse).reverse
      let parent ← if before.isEmpty then pure parent else readInto fuel places parent [before]
      readInto fuel places (parent.push { tag := "hr" }) (again (dropBreaks (unlines after)))
    | none =>
    match itemContent? (block.takeWhile (· != '\n')) with
    | some (numbered, _) =>
      let items := listItems (lines block)
      let addItem (b : Block) (item : List Char) : Reading Block := do
        if Text.startsWith tab item then
          atLast (fun c => readInto fuel (.tightList :: places) c [item]) b
        else return b.push (← readInto fuel (.tightList :: places) { tag := "li" } [item])
      let parent ←
        if parent.last?.any (·.isList) then
          atLast (fun l => do
            let l := match l.last? with
              | some item => l.setLast item.wrapText.wrapTail
              | none => l
            let first ← readInto fuel (.looseList :: places) { tag := "li" } (items.take 1)
            (items.drop 1).foldlM addItem (l.push first)) parent
        else if parent.isList then items.foldlM addItem parent
        else do
          let l ← items.foldlM addItem { tag := if numbered then "ol" else "ul" }
          pure (parent.push l)
      readInto fuel places parent rest
    | none =>
    match findLine? quoteLine? (lines block) with
    | some (before, content, after) =>
      let parent ← readInto fuel places parent [unlines before]
      let own := content :: after.map unquote
      let text := unlines (if before.isEmpty then own else [] :: own)
      let read (q : Block) : Reading Block := readInto fuel (.quote :: places) q (chunks text)
      let parent ←
        if parent.last?.any (·.tag == "blockquote") then atLast read parent
        else do
          let q ← read { tag := "blockquote" }
          pure (parent.push q)
      readInto fuel places parent rest
    | none =>
    match findDefinition? block with
    | some (before, name, target, after) =>
      modify fun t => t.set name.toLower target
      let tail := if isBlankText after then rest else dropBreaks after :: rest
      let tail := if isBlankText before then tail else before :: tail
      readInto fuel places parent tail
    | none => readInto fuel places (addText (place == some .tightList) parent block) rest

/--
The blocks of a text, and the names that it defines.
-/
def blocksOf (cs : List Char) : Block × Targets :=
  (readInto (4 * cs.length + 16) [] { tag := "div" } (chunks cs)).run {}

end Polyglot.Markdown
