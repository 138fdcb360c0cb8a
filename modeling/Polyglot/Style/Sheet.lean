import Polyglot.Style.Substitution
import Polyglot.Text.Character
import Polyglot.Text.Search

/-!
Style sheets: telling their rules from all else, and confining the rules to a scope.

A selector is confined by the scope's attribute selector. One that holds it already stays as it is;
where `:scope` or `:root` occurs, the attribute selector takes its place; any other selector is put
behind it.

Every character of a sheet is first marked as plain or as part of a comment or of a quoted string. Rules,
at-rules and stray declarations are then found by the plain characters alone.
-/

namespace Polyglot.Style

/--
The pieces between top-level commas. Brackets nest, a quoted string ends at its quote unless a
backslash stands right before it, and there is always one piece.
-/
def splitCommas (cs : List Char) : List (List Char) :=
  go 0 none ' ' cs
where
  go (depth : Nat) (quote : Option Char) (before : Char) : List Char → List (List Char)
    | [] => [[]]
    | c :: cs =>
      match quote with
      | some q =>
        put c (go depth (if c == q && before != '\\' then none else some q) c cs)
      | none =>
        if c == '"' || c == '\'' then put c (go depth (some c) c cs)
        else if c == '(' || c == '[' then put c (go (depth + 1) none c cs)
        else if c == ')' || c == ']' then put c (go (depth - 1) none c cs)
        else if c == ',' && depth == 0 then [] :: go depth none c cs
        else put c (go depth none c cs)
  put (c : Char) : List (List Char) → List (List Char)
    | [] => [[c]]
    | p :: ps => (c :: p) :: ps

/--
The selectors of a list, without their blank ends; pieces that are all blank are none.
-/
def splitSelectors (cs : List Char) : List (List Char) :=
  ((splitCommas cs).map Text.trim).filter (!·.isEmpty)

def pseudoScope? (cs : List Char) : Option (List Char × List Char) :=
  let found (word : String) : Option (List Char × List Char) :=
    match Text.after? word.toList cs with
    | some rest => if rest.head?.any Text.isWord then none else some (word.toList, rest)
    | none => none
  found ":scope" <|> found ":root"

/--
A selector cut at its scope pseudo-classes: text and matches in turn, as pairs of the text before a
match and the match, and the text behind the last one. A colon right behind another starts none.
-/
def cutPseudoScopes (cs : List Char) : List (List Char × List Char) × List Char :=
  go cs.length ' ' [] cs
where
  go : Nat → Char → List Char → List Char → List (List Char × List Char) × List Char
    | 0, _, read, cs => ([], read.reverse ++ cs)
    | _, _, read, [] => ([], read.reverse)
    | fuel + 1, before, read, c :: cs =>
      match if before == ':' then none else pseudoScope? (c :: cs) with
      | some (found, rest) =>
        let (more, tail) := go fuel 'e' [] rest
        ((read.reverse, found) :: more, tail)
      | none => go fuel c (c :: read) cs

/--
A selector confined to the scope of an attribute selector.
-/
def scopeSelector (attr selector : List Char) : Except SubstitutionError (List Char) :=
  if Text.contains attr selector then .ok selector
  else match cutPseudoScopes selector with
    | ([], _) => .ok (attr ++ ' ' :: selector)
    | (cuts, tail) =>
      (Substitution.parse attr).map fun parts =>
        (cuts.flatMap fun (text, found) => text ++ Substitution.spell found parts) ++ tail

/--
A selector list with each of its selectors confined to a scope.
-/
def scopeSelectors (attr selectors : List Char) : Except SubstitutionError (List Char) :=
  ((splitSelectors selectors).mapM (scopeSelector attr)).map (Text.join [',', ' '])

inductive Mark where
  | plain
  | comment
  | quoted
  deriving DecidableEq

abbrev Marked := List (Char × Mark)

def unmark (ms : Marked) : List Char :=
  ms.map (·.1)

/--
Marks every character. A comment runs up to its end mark or the end of the sheet. A quoted string
ends behind its quote or at a line feed; in it a backslash takes the next character with it.
-/
def mark : List Char → Marked
  | [] => []
  | '/' :: '*' :: cs => ('/', .comment) :: ('*', .comment) :: inComment cs
  | c :: cs =>
    if c == '"' || c == '\'' then (c, .quoted) :: inQuotes c cs else (c, .plain) :: mark cs
where
  inComment : List Char → Marked
    | [] => []
    | '*' :: '/' :: cs => ('*', .comment) :: ('/', .comment) :: mark cs
    | c :: cs => (c, .comment) :: inComment cs
  inQuotes (q : Char) : List Char → Marked
    | [] => []
    | '\\' :: c :: cs => ('\\', .quoted) :: (c, .quoted) :: inQuotes q cs
    | c :: cs => (c, .quoted) :: if c == q || c == '\n' then mark cs else inQuotes q cs

/--
Splits a statement in front of its first opening brace or semicolon outside brackets.
-/
def splitPrelude? : Nat → Marked → Option (Marked × Marked)
  | _, [] => none
  | depth, (c, m) :: ms =>
    let more (depth : Nat) : Option (Marked × Marked) :=
      (splitPrelude? depth ms).map fun (before, rest) => ((c, m) :: before, rest)
    if m != .plain then more depth
    else if c == '(' || c == '[' then more (depth + 1)
    else if c == ')' || c == ']' then more (depth - 1)
    else if depth == 0 && (c == '\x7b' || c == ';') then some ([], (c, m) :: ms)
    else more depth

def splitBlock : Nat → Marked → Marked × Marked
  | _, [] => ([], [])
  | depth, (c, m) :: ms =>
    let more (depth : Nat) : Marked × Marked :=
      let (block, rest) := splitBlock depth ms
      ((c, m) :: block, rest)
    if m != .plain then more depth
    else if c == '\x7b' then more (depth + 1)
    else if c == '\x7d' then if depth ≤ 1 then ([(c, m)], ms) else more (depth - 1)
    else more depth

/--
A piece of a sheet: text that is kept, or a rule with its selectors and its block.
-/
inductive Piece where
  | kept (text : List Char)
  | rule (selectors block : List Char)
  deriving DecidableEq

def Piece.text : Piece → List Char
  | .kept text => text
  | .rule selectors block => selectors ++ block

def piecesOf : Nat → Marked → List Piece
  | 0, _ => []
  | _, [] => []
  | fuel + 1, (c, m) :: ms =>
    if m == .comment || Text.isBlank c || (m == .plain && c == '\x7d') then
      .kept [c] :: piecesOf fuel ms
    else match splitPrelude? 0 ((c, m) :: ms) with
      | none => [.kept (unmark ((c, m) :: ms))]
      | some (before, rest) =>
        let (block, tail) := splitBlock 0 rest
        match rest with
        | (';', _) :: tail => .kept (unmark before ++ [';']) :: piecesOf fuel tail
        | _ =>
          if m == .plain && c == '@' then .kept (unmark before ++ unmark block) :: piecesOf fuel tail
          else .rule (unmark before) (unmark block) :: piecesOf fuel tail

def pieces (css : List Char) : List Piece :=
  piecesOf (css.length + 1) (mark css)

/--
A piece with its rule confined to a scope. The blank end of the selectors is kept.
-/
def Piece.scoped (attr : List Char) : Piece → Except SubstitutionError (List Char)
  | .kept text => .ok text
  | .rule selectors block =>
    (scopeSelectors attr (Text.trim selectors)).map fun s => s ++ Text.blankEnd selectors ++ block

def attributeSelector (id : List Char) : List Char :=
  '[' :: id ++ [']']

/--
A style sheet with every top-level rule confined to the scope of an id.
-/
def scopeSheet (id css : List Char) : Except SubstitutionError (List Char) :=
  ((pieces css).mapM (Piece.scoped (attributeSelector id))).map List.flatten

end Polyglot.Style
