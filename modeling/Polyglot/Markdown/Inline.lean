import Polyglot.Markdown.Block
import Polyglot.Markdown.Html

/-!
The inside of Markdown blocks: emphasis, code, links, pictures and escaped signs.

The rules are tried one after the other on the whole text. What a rule recognises is one piece for
the rules behind it, which also read what is inside it.
-/

namespace Polyglot.Markdown

/--
A part of a line: text, markup as it is, or an element whose attributes are written out.
-/
inductive Inline where
  | text (s : List Char)
  | raw (s : List Char)
  | element (tag : String) (attrs : List (String × List Char)) (children : List Inline)

inductive Piece where
  | char (c : Char)
  | done (i : Inline)

def referenceLength? (cs : List Char) : Option Nat :=
  let ending (n : Nat) (ds : List Char) : Option Nat :=
    if ds.isEmpty || (cs.drop (n + ds.length)).head? != some ';' then none else some (n + ds.length + 1)
  match cs with
  | '#' :: x :: rest =>
    if x == 'x' || x == 'X' then
      ending 2 (rest.takeWhile fun c => Text.isAsciiDigit c || ('a' ≤ c.toLower && c.toLower ≤ 'f'))
    else ending 1 ((x :: rest).takeWhile Text.isAsciiDigit)
  | _ => ending 0 (cs.takeWhile fun c => Text.isAsciiDigit c || Text.isAsciiLetter c)

/--
A text with the signs of markup escaped; character references are left alone.
-/
def escapeMarkup (inAttribute : Bool) : List Char → List Char
  | [] => []
  | c :: cs =>
    let rest := escapeMarkup inAttribute cs
    if c == '&' then if (referenceLength? cs).isSome then c :: rest else "&amp;".toList ++ rest
    else if c == '<' then "&lt;".toList ++ rest
    else if c == '>' then "&gt;".toList ++ rest
    else if c == '"' && inAttribute then "&quot;".toList ++ rest
    else c :: rest

def escapeCode (cs : List Char) : List Char :=
  cs.flatMap fun c =>
    if c == '&' then "&amp;".toList
    else if c == '<' then "&lt;".toList
    else if c == '>' then "&gt;".toList
    else [c]

def Inline.plain : Inline → List Char
  | text s => s
  | raw s => s
  | element _ _ children => all children
where
  all : List Inline → List Char
    | [] => []
    | i :: is => plain i ++ all is

def Piece.plain : Piece → List Char
  | char c => [c]
  | done i => i.plain

def plainText (ps : List Piece) : List Char :=
  ps.flatMap Piece.plain

def Piece.is (p : Piece) (c : Char) : Bool :=
  match p with
  | char d => c == d
  | done _ => false

def Piece.isBlank : Piece → Bool
  | char c => Text.isBlank c
  | done _ => false

def Piece.isWord : Piece → Bool
  | char c => Text.isWord c
  | done _ => false

def pieces (cs : List Char) : List Piece :=
  cs.map .char

def attr (name : String) (s : List Char) : String × List Char :=
  (name, escapeMarkup true s)

def signs? (c : Char) : Nat → List Piece → Option (List Piece)
  | 0, ps => some ps
  | n + 1, p :: ps => if p.is c then signs? c n ps else none
  | _, [] => none

/--
The shortest beginning of a text, of a least length, behind which something can be read.
-/
def shortest? {α : Type} (least : Nat) (read : List Piece → List Piece → Option α)
    (ps : List Piece) : Option α :=
  go least [] ps
where
  go : Nat → List Piece → List Piece → Option α
    | 0, taken, [] => read taken []
    | 0, taken, p :: ps =>
      match read taken (p :: ps) with
      | some a => some a
      | none => go 0 (p :: taken) ps
    | _, _, [] => none
    | n + 1, taken, p :: ps => go n (p :: taken) ps

/--
A rule: given how the inside is read, the piece before and the text from here on, it may put other
pieces in place of the beginning.
-/
abbrev Rule :=
  (List Piece → List Inline) → Option Piece → List Piece → Option (List Piece × List Piece)

def runLength (c : Char) (ps : List Piece) : Nat :=
  (ps.takeWhile (·.is c)).length

def codeSpan (n : Nat) (ps : List Piece) : Option (List Piece × List Piece) := do
  let rest ← signs? '\x60' n ps
  shortest? 1 (fun taken rest => do
    let after ← signs? '\x60' n rest
    if taken.head?.any (·.is '\x60') || after.head?.any (·.is '\x60') then none
    else
      let code := escapeCode (Text.trim (plainText taken.reverse))
      some ([.done (.element "code" [] [.raw code])], after)) rest

/--
Code between backticks, as many behind it as before. Pairs of backslashes before it are backslashes.
-/
def codeRule : Rule := fun _ before ps =>
  if before.any (·.is '\\') then none
  else
    let slashes := runLength '\\' ps
    let pairs := slashes / 2
    if 0 < pairs && slashes % 2 == 0 && (ps.drop slashes).head?.any (·.is '\x60') then
      some ([.done (.text (List.replicate pairs '\\'))], ps.drop slashes)
    else
      let n := runLength '\x60' ps
      (List.range n).findSome? fun k => codeSpan (n - k) ps

def escapable : List Char := "\\\x60*_\x7b\x7d[]()>#+-.!".toList

def escapeRule : Rule := fun _ _ ps =>
  match ps with
  | .char '\\' :: .char c :: rest =>
    if escapable.contains c then some ([.done (.text [c])], rest) else none
  | _ => none

def bracketed? : Nat → List Piece → Option (List Piece × List Piece)
  | _, [] => none
  | depth, p :: ps =>
    if p.is ']' && depth == 0 then some ([], ps)
    else
      let depth := if p.is '[' then depth + 1 else if p.is ']' then depth - 1 else depth
      (bracketed? depth ps).map fun (t, rest) => (p :: t, rest)

/--
The text up to the bracket that closes an address. Brackets inside quotes do not count.
-/
def addressText? : Nat → List Piece → Option (List Piece × List Piece)
  | _, [] => none
  | depth, p :: ps =>
    if p.is ')' && depth == 0 then some ([], ps)
    else
      let depth := if p.is '(' then depth + 1 else if p.is ')' then depth - 1 else depth
      (addressText? depth ps).map fun (t, rest) => (p :: t, rest)

def splitTitle (cs : List Char) : List Char × Option (List Char) :=
  let body := Text.trimRight cs
  match body.getLast? with
  | some q =>
    if q == '"' || q == '\'' then
      let address := body.takeWhile (· != q)
      let title := body.drop (address.length + 1)
      if title.isEmpty then (Text.trim cs, none)
      else (Text.trim address, some (Text.trim title.dropLast))
    else (Text.trim cs, none)
  | none => ([], none)

structure Address where
  href : List Char
  title : Option (List Char)

def address? (ps : List Piece) : Option (Address × List Piece) := do
  let rest ← signs? '(' 1 ps
  let rest := rest.dropWhile Piece.isBlank
  let pointed : Option (Address × List Piece) := do
    let inner ← signs? '<' 1 rest
    let href := inner.takeWhile fun p => !p.is '<' && !p.is '>'
    let after ← signs? '>' 1 (inner.drop href.length)
    let (more, after) ← addressText? 0 after
    let (junk, title) := splitTitle (plainText more)
    if junk.isEmpty then some (⟨Text.trim (plainText href), title⟩, after) else none
  pointed.or do
    let (t, after) ← addressText? 0 rest
    let (href, title) := splitTitle (plainText t)
    return (⟨href, title⟩, after)

def linkAttributes (a : Address) : List (String × List Char) :=
  attr "href" a.href :: (a.title.map (attr "title")).toList

def linkOf (inner : List Piece → List Inline) (t : List Piece) (a : Address) : Piece :=
  .done (.element "a" (linkAttributes a) (inner t))

def pictureOf (t : List Piece) (a : Address) : Piece :=
  .done (.element "img" (attr "alt" (plainText t) :: attr "src" a.href ::
    (a.title.map (attr "title")).toList) [])

/--
The start of a link's text; an exclamation mark before it makes it a picture.
-/
def linkStart? (before : Option Piece) (ps : List Piece) : Option (List Piece × List Piece) :=
  if before.any (·.is '!') then none else do bracketed? 0 (← signs? '[' 1 ps)

def pictureStart? (ps : List Piece) : Option (List Piece × List Piece) := do
  bracketed? 0 (← signs? '[' 1 (← signs? '!' 1 ps))

def addressOf (targets : Targets) (name : List Char) : Option Address :=
  let key := String.ofList (name.map fun c => if c == '\n' then ' ' else c)
  (targets.get? (Text.lower key)).map fun t => ⟨t.address.toList, t.title.map String.toList⟩

def referenceName? (t rest : List Piece) : Option (List Char × List Piece) := do
  let rest := match rest with
    | p :: more => if p.isBlank then more else rest
    | [] => rest
  let inner ← signs? '[' 1 rest
  let name := inner.takeWhile fun p => !p.is ']'
  let after ← signs? ']' 1 (inner.drop name.length)
  return (plainText (if name.isEmpty then t else name), after)

def referenceRule (targets : Targets) : Rule := fun inner before ps => do
  let (t, rest) ← linkStart? before ps
  let (name, after) ← referenceName? t rest
  return ([linkOf inner t (← addressOf targets name)], after)

def linkRule : Rule := fun inner before ps => do
  let (t, rest) ← linkStart? before ps
  let (a, after) ← address? rest
  return ([linkOf inner t a], after)

def pictureRule : Rule := fun _ _ ps => do
  let (t, rest) ← pictureStart? ps
  let (a, after) ← address? rest
  return ([pictureOf t a], after)

def pictureReferenceRule (targets : Targets) : Rule := fun _ _ ps => do
  let (t, rest) ← pictureStart? ps
  let (name, after) ← referenceName? t rest
  return ([pictureOf t (← addressOf targets name)], after)

def shortReferenceRule (targets : Targets) : Rule := fun inner before ps => do
  let (t, rest) ← linkStart? before ps
  return ([linkOf inner t (← addressOf targets (plainText t))], rest)

def shortPictureRule (targets : Targets) : Rule := fun _ _ ps => do
  let (t, rest) ← pictureStart? ps
  return ([pictureOf t (← addressOf targets (plainText t))], rest)

def pointed? (ps : List Piece) : Option (List Char × List Piece) := do
  let inner ← signs? '<' 1 ps
  let t := inner.takeWhile fun p => !p.is '<' && !p.is '>'
  return (plainText t, ← signs? '>' 1 (inner.drop t.length))

def schemes : List (List Char) :=
  ["http://", "https://", "ftp://", "ftps://"].map String.toList

def autoLinkRule : Rule := fun _ _ ps => do
  let (t, after) ← pointed? ps
  if schemes.any fun s => Text.startsWith s (t.map Char.toLower) then
    return ([.done (.element "a" [attr "href" t] [.text t])], after)
  else none

def numbered (cs : List Char) : List Char :=
  cs.flatMap fun c => '&' :: '#' :: (toString c.toNat).toList ++ [';']

def mailRule : Rule := fun _ _ ps => do
  let (t, after) ← pointed? ps
  let (name, host) ← Text.cut? ['@'] t
  let mail := (Text.after? "mailto:".toList t).getD t
  if name.isEmpty || host.isEmpty || t.any (fun c => c == ' ' || c == '!') || host.contains '@' then none
  else return ([.done (.element "a" [("href", numbered ("mailto:".toList ++ mail))]
    [.raw (numbered mail)])], after)

def breakRule : Rule := fun _ _ ps =>
  match ps with
  | .char ' ' :: .char ' ' :: .char '\n' :: rest => some ([.done (.element "br" [] [])], rest)
  | _ => none

def isTagText (cs : List Char) : Bool :=
  let body := match cs with
    | '/' :: rest => rest
    | _ => cs
  match body with
  | c :: rest =>
    Text.isAsciiLetter c && !((rest.takeWhile (· != ' ')).contains '@')
  | [] => false

def commentPieces? : List Piece → Option (List Char × List Piece)
  | .char '-' :: .char '-' :: .char '>' :: rest => some (['-', '-', '>'], rest)
  | p :: ps => (commentPieces? ps).map fun (t, rest) => (p.plain ++ t, rest)
  | [] => none

def htmlRule : Rule := fun _ _ ps =>
  match ps with
  | .char '<' :: .char '!' :: .char '-' :: .char '-' :: rest =>
    (commentPieces? rest).map fun (t, after) => ([.done (.raw ("<!--".toList ++ t))], after)
  | _ => do
    let (t, after) ← pointed? ps
    if isTagText t then return ([.done (.raw ('<' :: t ++ ['>']))], after) else none

def entityRule : Rule := fun _ _ ps => do
  let rest ← signs? '&' 1 ps
  let cs := rest.map fun
    | .char c => c
    | .done _ => ' '
  let n ← referenceLength? cs
  return ([.done (.raw ('&' :: cs.take n))], rest.drop n)

def loneSignRule : Rule := fun _ before ps =>
  let here (c : Char) : Option (List Piece × List Piece) :=
    let n := runLength c ps
    let rest := ps.drop n
    if 1 ≤ n && n ≤ 3 && (rest.isEmpty || rest.head?.any Piece.isBlank) then
      some ([.done (.text (List.replicate n c))], rest)
    else none
  if before.all Piece.isBlank then (here '*').or (here '_') else none

/--
An emphasis that has been recognised: the outer element, the inner one if there is one, their texts,
and the text behind.
-/
structure Emphasis where
  outer : String
  inner : Option String
  innerFirst : Bool
  first : List Piece
  second : List Piece := []
  after : List Piece

def isSign (c : Char) (p : Option Piece) : Bool :=
  p.any (·.is c)

def wordBefore (p : Option Piece) : Bool :=
  p.any Piece.isWord

def tripled? (c : Char) (n : Nat) (outer inner : String) (ps : List Piece) : Option Emphasis := do
  let rest ← signs? c 3 ps
  shortest? 1 (fun a rest => do
    let rest ← signs? c n rest
    shortest? 0 (fun b rest => do
      return ⟨outer, some inner, true, a.reverse, b.reverse, ← signs? c (3 - n) rest⟩) rest) rest

def nested? (c : Char) (before : Option Piece) (ps : List Piece) : Option Emphasis := do
  let smart := c == '_'
  let rest ← signs? c 2 ps
  if isSign c rest.head? || (smart && wordBefore before) then none
  else
    shortest? 1 (fun a rest => do
      let next ← signs? c 1 rest
      if isSign c next.head? || (smart && wordBefore a.head?) ||
          (!smart && a.any (·.is c)) then none
      else
        shortest? 1 (fun b rest => do
          let after ← signs? c 3 rest
          if smart && after.head?.any Piece.isWord then none
          else some ⟨"strong", some "em", false, a.reverse, b.reverse, after⟩) next) rest

def single? (c : Char) (n : Nat) (tag : String) (before : Option Piece) (ps : List Piece) :
    Option Emphasis := do
  let rest ← signs? c n ps
  if c == '_' then
    if wordBefore before || isSign c rest.head? then none
    else
      shortest? 1 (fun a rest => do
        let after ← signs? c n rest
        if isSign c a.head? || after.head?.any Piece.isWord then none
        else some ⟨tag, none, true, a.reverse, [], after⟩) rest
  else if n == 1 then
    let a := rest.takeWhile fun p => !p.is c
    if a.isEmpty then none else return ⟨tag, none, true, a, [], ← signs? c 1 (rest.drop a.length)⟩
  else
    shortest? 1 (fun a rest => do
      return ⟨tag, none, true, a.reverse, [], ← signs? c n rest⟩) rest

def emphasisForms (c : Char) : List (Option Piece → List Piece → Option Emphasis) :=
  [fun _ ps => tripled? c 1 "strong" "em" ps, fun _ ps => tripled? c 2 "em" "strong" ps,
    nested? c, single? c 2 "strong", single? c 1 "em"]

def findForm? (c : Char) (from_ : Nat) (before : Option Piece) (ps : List Piece) :
    Option (Nat × Emphasis) :=
  ((emphasisForms c).zipIdx.drop from_).findSome? fun (form, i) =>
    (form before ps).map fun e => (i, e)

mutual

/--
The element of an emphasis. Inside it only forms are looked for that come behind its own.
-/
def emphasize (inner : List Piece → List Inline) (c : Char) (form : Nat) (e : Emphasis) :
    Nat → Inline
  | 0 => .text []
  | fuel + 1 =>
    let first := emphasisInside inner c (form + 1) none [] e.first fuel
    let second := emphasisInside inner c (form + 1) none [] e.second fuel
    match e.inner with
    | none => .element e.outer [] first
    | some tag =>
      if e.innerFirst then .element e.outer [] (.element tag [] first :: second)
      else .element e.outer [] (first ++ [.element tag [] second])

def emphasisInside (inner : List Piece → List Inline) (c : Char) (from_ : Nat)
    (before : Option Piece) (text : List Piece) (ps : List Piece) : Nat → List Inline
  | 0 => inner (text.reverse ++ ps)
  | fuel + 1 =>
    match ps with
    | [] => if text.isEmpty then [] else inner text.reverse
    | p :: rest =>
      match if p.is c then findForm? c from_ before ps else none with
      | some (form, e) =>
        (if text.isEmpty then [] else inner text.reverse) ++
          emphasize inner c form e fuel :: emphasisInside inner c from_ (some p) [] e.after fuel
      | none => emphasisInside inner c from_ (some p) (p :: text) rest fuel

end

def emphasisRule (c : Char) : Rule := fun inner before ps =>
  if ps.head?.any (·.is c) then
    (findForm? c 0 before ps).map fun (form, e) =>
      ([.done (emphasize inner c form e (2 * ps.length + 2))], e.after)
  else none

def rules (targets : Targets) : List Rule :=
  [codeRule, escapeRule, referenceRule targets, linkRule, pictureRule, pictureReferenceRule targets,
    shortReferenceRule targets, shortPictureRule targets, autoLinkRule, mailRule, breakRule, htmlRule,
    entityRule, loneSignRule, emphasisRule '*', emphasisRule '_']

def applyRule (rule : Rule) (inner : List Piece → List Inline) :
    Nat → Option Piece → List Piece → List Piece
  | 0, _, ps => ps
  | _, _, [] => []
  | fuel + 1, before, p :: ps =>
    match rule inner before (p :: ps) with
    | some (found, rest) => found ++ applyRule rule inner fuel found.getLast? rest
    | none => p :: applyRule rule inner fuel (some p) ps

def ofPieces : List Piece → List Inline
  | [] => []
  | .done i :: ps => i :: ofPieces ps
  | .char c :: ps =>
    match ofPieces ps with
    | .text s :: is => .text (c :: s) :: is
    | is => .text [c] :: is

def applyRules : List Rule → List Piece → List Inline
  | [] => ofPieces
  | rule :: rest => fun ps =>
    let inner := applyRules rest
    inner (applyRule rule inner (ps.length + 1) none ps)

def resolveMarks (parts : List (List Char)) : Nat → List Char → List Piece
  | 0, _ => []
  | _, [] => []
  | fuel + 1, c :: cs =>
    match takeMark? (c :: cs) with
    | some (n, rest) => .done (.raw ((parts[n]?).getD [])) :: resolveMarks parts fuel rest
    | none => .char c :: resolveMarks parts fuel cs

def readLine (targets : Targets) (parts : List (List Char)) (cs : List Char) : List Inline :=
  applyRules (rules targets) (resolveMarks parts (cs.length + 1) cs)

end Polyglot.Markdown
