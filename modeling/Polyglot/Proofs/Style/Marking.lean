import Mathlib.Data.List.Infix
import Polyglot.Style.Sheet

/-!
The grammar of style sheets: what a sheet is made of, how it is written, and what it comes to in a
scope.
-/

namespace Polyglot.Style

/--
A character that stands for itself, or a comment or quoted string as a whole.
-/
inductive Lexeme where
  | char (c : Char)
  | comment (body : List Char)
  | quoted (q : Char) (body : List Char)

def Lexeme.text : Lexeme → List Char
  | char c => [c]
  | comment body => '/' :: '*' :: body ++ ['*', '/']
  | quoted q body => q :: body ++ [q]

def textOf (ls : List Lexeme) : List Char :=
  ls.flatMap Lexeme.text

def IsQuote (c : Char) : Prop :=
  c = '"' ∨ c = '\''

/--
What may stand between two quotes: no line feed, and no quote or backslash that is not escaped.
-/
inductive Quotable (q : Char) : List Char → Prop where
  | nil : Quotable q []
  | char {c : Char} {cs : List Char} (hquote : c ≠ q) (hbackslash : c ≠ '\\') (hline : c ≠ '\n')
      (hcs : Quotable q cs) : Quotable q (c :: cs)
  | escaped {c : Char} {cs : List Char} (hcs : Quotable q cs) : Quotable q ('\\' :: c :: cs)

/--
Every quoted string and every comment is closed where it ends, and none starts anywhere else.
-/
inductive Closed : List Lexeme → Prop where
  | nil : Closed []
  | char {c : Char} {ls : List Lexeme} (hquote : ¬ IsQuote c)
      (hcomment : c = '/' → (textOf ls).head? ≠ some '*') (hls : Closed ls) : Closed (.char c :: ls)
  | comment {body : List Char} {ls : List Lexeme} (hbody : ¬ ['*', '/'] <:+: body)
      (hls : Closed ls) : Closed (.comment body :: ls)
  | quoted {q : Char} {body : List Char} {ls : List Lexeme} (hquote : IsQuote q)
      (hbody : Quotable q body) (hls : Closed ls) : Closed (.quoted q body :: ls)

/--
Groups between a pair of characters nest, and there are only certain characters inside of groups, and
others outside.
-/
inductive Balanced (pair : Char → Char → Prop) (inside : Char → Prop) :
    (Char → Prop) → List Lexeme → Prop where
  | nil {outside : Char → Prop} : Balanced pair inside outside []
  | char {outside : Char → Prop} {c : Char} {ls : List Lexeme} (hc : outside c)
      (hls : Balanced pair inside outside ls) : Balanced pair inside outside (.char c :: ls)
  | comment {outside : Char → Prop} {body : List Char} {ls : List Lexeme}
      (hls : Balanced pair inside outside ls) : Balanced pair inside outside (.comment body :: ls)
  | quoted {outside : Char → Prop} {q : Char} {body : List Char} {ls : List Lexeme}
      (hls : Balanced pair inside outside ls) : Balanced pair inside outside (.quoted q body :: ls)
  | group {outside : Char → Prop} {o c : Char} {group ls : List Lexeme} (hpair : pair o c)
      (hgroup : Balanced pair inside inside group) (hls : Balanced pair inside outside ls) :
      Balanced pair inside outside (.char o :: group ++ .char c :: ls)

def BracketPair (o c : Char) : Prop :=
  (o = '(' ∧ c = ')') ∨ (o = '[' ∧ c = ']')

def BracePair (o c : Char) : Prop :=
  o = '\x7b' ∧ c = '\x7d'

def IsBracket (c : Char) : Prop :=
  c ∈ ['(', ')', '[', ']']

def IsBrace (c : Char) : Prop :=
  c ∈ ['\x7b', '\x7d']

def IsPreludeChar (c : Char) : Prop :=
  ¬ IsBracket c ∧ c ≠ ';' ∧ c ≠ '\x7b'

/--
What a rule or an at-rule starts with: any text up to a semicolon or an opening brace outside of
brackets.
-/
structure Prelude where
  lexemes : List Lexeme
  closed : Closed lexemes
  balanced : Balanced BracketPair (¬ IsBracket ·) IsPreludeChar lexemes

def Prelude.text (p : Prelude) : List Char :=
  textOf p.lexemes

/--
What stands between the braces of a rule or an at-rule.
-/
structure Block where
  lexemes : List Lexeme
  closed : Closed lexemes
  balanced : Balanced BracePair (¬ IsBrace ·) (¬ IsBrace ·) lexemes

def Block.text (b : Block) : List Char :=
  '\x7b' :: textOf b.lexemes ++ ['\x7d']

def IsGroupChar (c : Char) : Prop :=
  c ∉ [';', '\x7b', '\x7d', '@', '(', ')', '[', ']', '"', '\'']

def IsSelectorChar (c : Char) : Prop :=
  IsGroupChar c ∧ c ≠ ','

/--
A single selector: there are commas only inside of brackets, and no comments and backslashes.
-/
structure Selector where
  lexemes : List Lexeme
  closed : Closed lexemes
  balanced : Balanced BracketPair IsGroupChar IsSelectorChar lexemes
  bare : ∀ body, .comment body ∉ lexemes
  unescaped : '\\' ∉ textOf lexemes
  trimmed : Text.trim (textOf lexemes) = textOf lexemes
  nonempty : textOf lexemes ≠ []

def Selector.text (s : Selector) : List Char :=
  textOf s.lexemes

abbrev Blanks := { cs : List Char // ∀ c ∈ cs, Text.isBlank c }

/--
A selector behind another one, with the comma between them.
-/
structure Further where
  before : Blanks
  after : Blanks
  selector : Selector

def Further.text (f : Further) : List Char :=
  f.before.val ++ ',' :: f.after.val ++ f.selector.text

structure Rule where
  first : Selector
  more : List Further
  ending : Blanks
  block : Block

namespace Rule

def selectors (r : Rule) : List (List Char) :=
  r.first.text :: r.more.map (·.selector.text)

def selectorList (r : Rule) : List Char :=
  r.first.text ++ r.more.flatMap Further.text

end Rule

/--
What a style sheet is made of.
-/
inductive Item where
  | blank (c : Char) (h : Text.isBlank c)
  | comment (body : List Char) (h : ¬ ['*', '/'] <:+: body)
  | statement (p : Prelude)
  | atBlock (p : Prelude) (b : Block)
  | rule (r : Rule)

def Item.text : Item → List Char
  | blank c _ => [c]
  | comment body _ => (Lexeme.comment body).text
  | statement p => '@' :: p.text ++ [';']
  | atBlock p b => '@' :: p.text ++ b.text
  | rule r => r.selectorList ++ r.ending.val ++ r.block.text

/--
A selector confined to the scope of an attribute selector, where the attribute selector stands for
itself.
-/
def confine (attr selector : List Char) : List Char :=
  if Text.contains attr selector then selector
  else match cutPseudoScopes selector with
    | ([], _) => attr ++ ' ' :: selector
    | (cuts, tail) => (cuts.flatMap fun cut => cut.1 ++ attr) ++ tail

/--
What an item comes to in a scope: in a rule each selector is confined, and all else stays.
-/
def Item.confined (attr : List Char) : Item → List Char
  | rule r =>
    Text.join [',', ' '] (r.selectors.map (confine attr)) ++ r.ending.val ++ r.block.text
  | item => item.text

/-!
Scanning what is written by the grammar: every lexeme is marked as what it is, and preludes and blocks
are split off as a whole.
-/

def Lexeme.mark : Lexeme → Mark
  | char _ => .plain
  | comment _ => .comment
  | quoted .. => .quoted

def Lexeme.marked (l : Lexeme) : Marked :=
  l.text.map fun c => (c, l.mark)

def markedOf (ls : List Lexeme) : Marked :=
  ls.flatMap Lexeme.marked

@[simp]
theorem textOf_cons (l : Lexeme) (ls : List Lexeme) : textOf (l :: ls) = l.text ++ textOf ls := by
  simp [textOf]

@[simp]
theorem textOf_append (ls ls' : List Lexeme) : textOf (ls ++ ls') = textOf ls ++ textOf ls' := by
  simp [textOf]

@[simp]
theorem markedOf_cons (l : Lexeme) (ls : List Lexeme) :
    markedOf (l :: ls) = l.marked ++ markedOf ls := by
  simp [markedOf]

@[simp]
theorem markedOf_append (ls ls' : List Lexeme) :
    markedOf (ls ++ ls') = markedOf ls ++ markedOf ls' := by
  simp [markedOf]

@[simp]
theorem unmark_markedOf (ls : List Lexeme) : unmark (markedOf ls) = textOf ls := by
  induction ls with
  | nil => rfl
  | cons l ls ih =>
    rw [markedOf_cons, textOf_cons, ← ih]
    simp [unmark, Lexeme.marked, Function.comp_def]

theorem mark_char {c : Char} (hquote : ¬ IsQuote c) {cs : List Char}
    (hcomment : c = '/' → cs.head? ≠ some '*') : mark (c :: cs) = (c, .plain) :: mark cs := by
  rw [mark.eq_def]
  split
  · next heq => cases heq
  · next heq =>
    cases heq
    exact absurd rfl (hcomment rfl)
  · next c' cs' _ heq =>
    cases heq
    rw [IsQuote] at hquote
    rw [if_neg (by simpa using hquote)]

theorem inComment_append {body rest : List Char} (hbody : ¬ ['*', '/'] <:+: body) :
    mark.inComment (body ++ '*' :: '/' :: rest) =
      body.map (·, .comment) ++ ('*', .comment) :: ('/', .comment) :: mark rest := by
  induction body with
  | nil => rfl
  | cons c body ih =>
    have hrest : ¬ ['*', '/'] <:+: body := fun h => hbody (List.infix_cons h)
    have hnext : ∀ cs, c = '*' → body ++ '*' :: '/' :: rest ≠ '/' :: cs := by
      rintro cs rfl heq
      cases body with
      | nil => cases heq
      | cons d body =>
        cases heq
        exact hbody ⟨[], body, rfl⟩
    rw [List.cons_append, mark.inComment, ih hrest]
    · rfl
    · exact hnext

theorem inQuotes_append {q : Char} {body rest : List Char} (hq : IsQuote q) (hbody : Quotable q body) :
    mark.inQuotes q (body ++ q :: rest) = body.map (·, .quoted) ++ (q, .quoted) :: mark rest := by
  have hbackslash : q ≠ '\\' := by
    rcases hq with rfl | rfl <;> decide
  induction hbody with
  | nil =>
    rw [List.nil_append, mark.inQuotes]
    · simp
    · intro c cs heq
      exact absurd heq hbackslash
  | @char c cs hquote hslash hline _ ih =>
    rw [List.cons_append, mark.inQuotes, if_neg (by simp [hquote, hline]), ih]
    · rfl
    · intro d ds heq
      exact absurd heq hslash
  | escaped _ ih =>
    rw [List.cons_append, List.cons_append, mark.inQuotes, ih]
    rfl

theorem mark_append {ls : List Lexeme} (h : Closed ls) {rest : List Char}
    (hrest : rest.head? ≠ some '*') : mark (textOf ls ++ rest) = markedOf ls ++ mark rest := by
  induction h with
  | nil => rfl
  | @char c ls hquote hcomment _ ih =>
    have hnext : c = '/' → (textOf ls ++ rest).head? ≠ some '*' := by
      intro hc
      have := hcomment hc
      cases hls : textOf ls with
      | nil => exact hrest
      | cons d ds =>
        rw [hls] at this
        exact this
    rw [textOf_cons, markedOf_cons, List.append_assoc, Lexeme.text, List.singleton_append,
      mark_char hquote hnext, ih]
    rfl
  | @comment body ls hbody _ ih =>
    have hmark (cs : List Char) : mark ('/' :: '*' :: cs) =
        ('/', .comment) :: ('*', .comment) :: mark.inComment cs := by
      rw [mark]
    have htext : (Lexeme.comment body).text ++ (textOf ls ++ rest) =
        '/' :: '*' :: (body ++ '*' :: '/' :: (textOf ls ++ rest)) := by
      simp [Lexeme.text]
    rw [textOf_cons, markedOf_cons, List.append_assoc, htext, hmark, inComment_append hbody, ih]
    simp [Lexeme.marked, Lexeme.text, Lexeme.mark]
  | @quoted q body ls hquote hbody _ ih =>
    have hmark (cs : List Char) : mark (q :: cs) = (q, .quoted) :: mark.inQuotes q cs := by
      rcases hquote with rfl | rfl <;> rfl
    have htext : (Lexeme.quoted q body).text ++ (textOf ls ++ rest) =
        q :: (body ++ q :: (textOf ls ++ rest)) := by
      simp [Lexeme.text]
    rw [textOf_cons, markedOf_cons, List.append_assoc, htext, hmark, inQuotes_append hquote hbody, ih]
    simp [Lexeme.marked, Lexeme.text, Lexeme.mark]

theorem splitPrelude_quiet {depth : Nat} {ms : Marked} (h : ∀ e ∈ ms, e.2 ≠ .plain) (rest : Marked) :
    splitPrelude? depth (ms ++ rest) = (splitPrelude? depth rest).map fun (b, r) => (ms ++ b, r) := by
  induction ms with
  | nil => simp
  | cons e ms ih =>
    obtain ⟨c, m⟩ := e
    have hm : m ≠ .plain := h (c, m) List.mem_cons_self
    have hstep : splitPrelude? depth ((c, m) :: (ms ++ rest)) =
        (splitPrelude? depth (ms ++ rest)).map fun (b, r) => ((c, m) :: b, r) := by
      rw [splitPrelude?, if_pos (by simpa using hm)]
    rw [List.cons_append, hstep, ih fun e he => h e (List.mem_cons_of_mem _ he), Option.map_map]
    rfl

theorem splitBlock_quiet {depth : Nat} {ms : Marked} (h : ∀ e ∈ ms, e.2 ≠ .plain) (rest : Marked) :
    splitBlock depth (ms ++ rest) = (ms ++ (splitBlock depth rest).1, (splitBlock depth rest).2) := by
  induction ms with
  | nil => rfl
  | cons e ms ih =>
    obtain ⟨c, m⟩ := e
    have hm : m ≠ .plain := h (c, m) List.mem_cons_self
    have hstep : splitBlock depth ((c, m) :: (ms ++ rest)) =
        ((c, m) :: (splitBlock depth (ms ++ rest)).1, (splitBlock depth (ms ++ rest)).2) := by
      rw [splitBlock, if_pos (by simpa using hm)]
    rw [List.cons_append, hstep, ih fun e he => h e (List.mem_cons_of_mem _ he)]
    rfl

theorem Lexeme.marked_quiet {l : Lexeme} (h : l.mark ≠ .plain) : ∀ e ∈ l.marked, e.2 ≠ .plain := by
  intro e he
  obtain ⟨c, _, rfl⟩ := List.mem_map.mp he
  exact h

/--
Looking for the end of a prelude passes over balanced text that has no end outside of brackets.
-/
theorem splitPrelude_append {inside outside : Char → Prop} {ls : List Lexeme}
    (h : Balanced BracketPair inside outside ls) (hinside : ∀ c, inside c → ¬ IsBracket c) {depth : Nat}
    (houtside : ∀ c, outside c → ¬ IsBracket c ∧ (depth = 0 → c ≠ ';' ∧ c ≠ '\x7b')) (rest : Marked) :
    splitPrelude? depth (markedOf ls ++ rest) =
      (splitPrelude? depth rest).map fun (b, r) => (markedOf ls ++ b, r) := by
  induction h generalizing depth rest with
  | nil => simp [markedOf]
  | @char outside c ls hc _ ih =>
    obtain ⟨hbracket, hend⟩ := houtside c hc
    simp only [IsBracket, List.mem_cons, List.not_mem_nil, or_false, not_or] at hbracket
    obtain ⟨hopen, hclose, hopen', hclose'⟩ := hbracket
    have hstop : ¬ (depth == 0 && (c == '\x7b' || c == ';')) = true := by
      simp only [Bool.and_eq_true, Bool.or_eq_true, beq_iff_eq]
      rintro ⟨hdepth, rfl | rfl⟩
      · exact (hend hdepth).2 rfl
      · exact (hend hdepth).1 rfl
    have hstep : splitPrelude? depth ((c, .plain) :: (markedOf ls ++ rest)) =
        (splitPrelude? depth (markedOf ls ++ rest)).map fun (b, r) => ((c, .plain) :: b, r) := by
      rw [splitPrelude?, if_neg (by decide), if_neg (by simp [hopen, hopen']),
        if_neg (by simp [hclose, hclose']), if_neg hstop]
    rw [markedOf_cons, Lexeme.marked, Lexeme.text, List.map_singleton, List.singleton_append,
      List.cons_append, Lexeme.mark, hstep, ih houtside, Option.map_map]
    rfl
  | comment _ ih =>
    rw [markedOf_cons, List.append_assoc, splitPrelude_quiet (Lexeme.marked_quiet (by simp [Lexeme.mark])),
      ih houtside, Option.map_map]
    simp [Function.comp_def]
  | quoted _ ih =>
    rw [markedOf_cons, List.append_assoc, splitPrelude_quiet (Lexeme.marked_quiet (by simp [Lexeme.mark])),
      ih houtside, Option.map_map]
    simp [Function.comp_def]
  | @group outside o c group ls hpair _ _ ihgroup ih =>
    have hopen (rest : Marked) : splitPrelude? depth ((o, .plain) :: rest) =
        (splitPrelude? (depth + 1) rest).map fun (b, r) => ((o, .plain) :: b, r) := by
      rcases hpair with ⟨rfl, rfl⟩ | ⟨rfl, rfl⟩ <;> rfl
    have hclose (rest : Marked) : splitPrelude? (depth + 1) ((c, .plain) :: rest) =
        (splitPrelude? depth rest).map fun (b, r) => ((c, .plain) :: b, r) := by
      rcases hpair with ⟨rfl, rfl⟩ | ⟨rfl, rfl⟩ <;> rfl
    have hmarked : markedOf (.char o :: group ++ .char c :: ls) ++ rest =
        (o, .plain) :: (markedOf group ++ (c, .plain) :: (markedOf ls ++ rest)) := by
      simp [Lexeme.marked, Lexeme.text, Lexeme.mark]
    have hgroup (rest : Marked) : splitPrelude? (depth + 1) (markedOf group ++ rest) =
        (splitPrelude? (depth + 1) rest).map fun (b, r) => (markedOf group ++ b, r) :=
      ihgroup (fun c hc => ⟨hinside c hc, fun h => by cases h⟩) rest
    rw [hmarked, hopen, hgroup, hclose, ih houtside]
    simp [Option.map_map, Function.comp_def, Lexeme.marked, Lexeme.text, Lexeme.mark]

theorem splitBlock_append {inside outside : Char → Prop} {ls : List Lexeme}
    (h : Balanced BracePair inside outside ls) (hinside : ∀ c, inside c → ¬ IsBrace c)
    (houtside : ∀ c, outside c → ¬ IsBrace c) {depth : Nat} (rest : Marked) :
    splitBlock (depth + 1) (markedOf ls ++ rest) =
      (markedOf ls ++ (splitBlock (depth + 1) rest).1, (splitBlock (depth + 1) rest).2) := by
  induction h generalizing depth rest with
  | nil => rfl
  | @char outside c ls hc _ ih =>
    have hbrace := houtside c hc
    simp only [IsBrace, List.mem_cons, List.not_mem_nil, or_false, not_or] at hbrace
    obtain ⟨hopen, hclose⟩ := hbrace
    have hstep : splitBlock (depth + 1) ((c, .plain) :: (markedOf ls ++ rest)) =
        ((c, .plain) :: (splitBlock (depth + 1) (markedOf ls ++ rest)).1,
          (splitBlock (depth + 1) (markedOf ls ++ rest)).2) := by
      rw [splitBlock, if_neg (by decide), if_neg (by simpa using hopen), if_neg (by simpa using hclose)]
    rw [markedOf_cons, Lexeme.marked, Lexeme.text, List.map_singleton, List.singleton_append,
      List.cons_append, Lexeme.mark, hstep, ih houtside]
    rfl
  | comment _ ih =>
    rw [markedOf_cons, List.append_assoc, splitBlock_quiet (Lexeme.marked_quiet (by simp [Lexeme.mark])),
      ih houtside, List.append_assoc]
  | quoted _ ih =>
    rw [markedOf_cons, List.append_assoc, splitBlock_quiet (Lexeme.marked_quiet (by simp [Lexeme.mark])),
      ih houtside, List.append_assoc]
  | @group outside o c group ls hpair _ _ ihgroup ih =>
    obtain ⟨rfl, rfl⟩ := hpair
    have hopen (rest : Marked) : splitBlock (depth + 1) (('\x7b', .plain) :: rest) =
        (('\x7b', .plain) :: (splitBlock (depth + 2) rest).1, (splitBlock (depth + 2) rest).2) := rfl
    have hclose (rest : Marked) : splitBlock (depth + 2) (('\x7d', .plain) :: rest) =
        (('\x7d', .plain) :: (splitBlock (depth + 1) rest).1, (splitBlock (depth + 1) rest).2) := rfl
    have hmarked : markedOf (.char '\x7b' :: group ++ .char '\x7d' :: ls) ++ rest =
        ('\x7b', .plain) :: (markedOf group ++ ('\x7d', .plain) :: (markedOf ls ++ rest)) := by
      simp [Lexeme.marked, Lexeme.text, Lexeme.mark]
    rw [hmarked, hopen, ihgroup hinside, hclose, ih houtside]
    simp [Lexeme.marked, Lexeme.text, Lexeme.mark]

end Polyglot.Style
