import Polyglot.Proofs.Style.Selectors

/-!
Scoping a sheet that is written by the grammar: each rule is found as a whole and has its selectors
confined, and everything else is kept.
-/

namespace Polyglot.Style

section Closing

theorem ne_star_of_blank {c : Char} (h : Text.isBlank c) : c ≠ '*' := by
  rintro rfl
  revert h
  decide

theorem Closed.append {ls ls' : List Lexeme} (h : Closed ls) (h' : Closed ls')
    (hnext : (textOf ls').head? ≠ some '*') : Closed (ls ++ ls') := by
  induction h with
  | nil => exact h'
  | @char c ls hquote hcomment _ ih =>
    rw [List.cons_append]
    refine .char hquote ?_ ih
    intro hc
    rw [textOf_append]
    cases htext : textOf ls with
    | nil => exact hnext
    | cons d ds =>
      have := hcomment hc
      rw [htext] at this
      exact this
  | comment hbody _ ih => exact .comment hbody ih
  | quoted hquote hbody _ ih => exact .quoted hquote hbody ih

theorem Closed.blanks {ls : List Lexeme} (h : Closed ls) {cs : List Char}
    (hcs : ∀ c ∈ cs, Text.isBlank c) : Closed (cs.map .char ++ ls) := by
  induction cs with
  | nil => exact h
  | cons c cs ih =>
    have hblank := hcs c List.mem_cons_self
    have hne (d : Char) (hd : Text.isBlank d = false) : c ≠ d := by
      rintro rfl
      rw [hd] at hblank
      cases hblank
    refine .char ?_ ?_ (ih fun d hd => hcs d (List.mem_cons_of_mem _ hd))
    · rintro (heq | heq)
      · exact hne _ (by decide) heq
      · exact hne _ (by decide) heq
    · intro heq
      exact absurd heq (hne _ (by decide))

theorem head_blanks {ls : List Lexeme} (h : (textOf ls).head? ≠ some '*') {cs : List Char}
    (hcs : ∀ c ∈ cs, Text.isBlank c) : (textOf (cs.map .char ++ ls)).head? ≠ some '*' := by
  rw [textOf_append, textOf_chars]
  cases cs with
  | nil => exact h
  | cons c cs =>
    intro heq
    exact ne_star_of_blank (hcs c List.mem_cons_self) (Option.some.inj heq)

end Closing

section Preludes

def Prelude.withAt (p : Prelude) : Prelude where
  lexemes := .char '@' :: p.lexemes
  closed := .char (by simp [IsQuote]) (by simp) p.closed
  balanced := .char (by simp [IsPreludeChar, IsBracket]) p.balanced

theorem Prelude.text_withAt (p : Prelude) : p.withAt.text = '@' :: p.text := by
  rw [text, withAt, textOf_cons, Lexeme.text, List.singleton_append, text]

def Further.lexemes (f : Further) : List Lexeme :=
  f.before.val.map .char ++ (.char ',' :: (f.after.val.map .char ++ f.selector.lexemes))

theorem Further.textOf_lexemes (f : Further) : textOf f.lexemes = f.text := by
  simp [lexemes, text, textOf_chars, Lexeme.text, Selector.text]

namespace Rule

def rest (more : List Further) (ending : Blanks) : List Lexeme :=
  more.flatMap Further.lexemes ++ ending.val.map .char

theorem textOf_rest (more : List Further) (ending : Blanks) :
    textOf (rest more ending) = more.flatMap Further.text ++ ending.val := by
  rw [rest, textOf_append, textOf_chars]
  congr 1
  induction more with
  | nil => rfl
  | cons f more ih => rw [List.flatMap_cons, List.flatMap_cons, textOf_append, f.textOf_lexemes, ih]

theorem closed_rest (more : List Further) (ending : Blanks) :
    Closed (rest more ending) ∧ (textOf (rest more ending)).head? ≠ some '*' := by
  induction more with
  | nil =>
    have hclosed := Closed.nil.blanks ending.property
    have hhead : (textOf (ending.val.map .char ++ [])).head? ≠ some '*' :=
      head_blanks (by simp [textOf]) ending.property
    rw [List.append_nil] at hclosed hhead
    exact ⟨hclosed, hhead⟩
  | cons f more ih =>
    have hrest : rest (f :: more) ending = f.before.val.map .char ++
        (.char ',' :: (f.after.val.map .char ++ (f.selector.lexemes ++ rest more ending))) := by
      simp [rest, Further.lexemes]
    have hselector := f.selector.closed.append ih.1 ih.2
    have hcomma : Closed
        (.char ',' :: (f.after.val.map .char ++ (f.selector.lexemes ++ rest more ending))) :=
      .char (by simp [IsQuote]) (by simp) (hselector.blanks f.after.property)
    rw [hrest]
    exact ⟨hcomma.blanks f.before.property,
      head_blanks (by simp [Lexeme.text]) f.before.property⟩

theorem isPreludeChar_of_isGroupChar {c : Char} (h : IsGroupChar c) : IsPreludeChar c := by
  simp only [IsGroupChar, List.mem_cons, List.not_mem_nil, or_false, not_or] at h
  simp only [IsPreludeChar, IsBracket, List.mem_cons, List.not_mem_nil, or_false, not_or]
  tauto

theorem balanced_selector (s : Selector) :
    Balanced BracketPair (¬ IsBracket ·) IsPreludeChar s.lexemes :=
  s.balanced.mono (fun _ h => (isPreludeChar_of_isGroupChar h).1)
    fun _ h => isPreludeChar_of_isGroupChar h.1

theorem balanced_spaces (cs : Blanks) :
    Balanced BracketPair (¬ IsBracket ·) IsPreludeChar (cs.val.map .char) :=
  (balanced_blanks cs.property).mono (fun _ h => h)
    fun _ h => isPreludeChar_of_isGroupChar h.1

theorem balanced_rest (more : List Further) (ending : Blanks) :
    Balanced BracketPair (¬ IsBracket ·) IsPreludeChar (rest more ending) := by
  induction more with
  | nil => exact balanced_spaces ending
  | cons f more ih =>
    have hrest : rest (f :: more) ending = f.lexemes ++ rest more ending := by
      simp [rest]
    have hcomma : IsPreludeChar ',' := by simp [IsPreludeChar, IsBracket]
    rw [hrest]
    exact ((balanced_spaces f.before).append
      (.char hcomma ((balanced_spaces f.after).append (balanced_selector f.selector)))).append ih

/--
A rule up to its block.
-/
def prelude (r : Rule) : Prelude where
  lexemes := r.first.lexemes ++ rest r.more r.ending
  closed := r.first.closed.append (closed_rest r.more r.ending).1 (closed_rest r.more r.ending).2
  balanced := (balanced_selector r.first).append (balanced_rest r.more r.ending)

theorem text_prelude (r : Rule) : r.prelude.text = r.selectorList ++ r.ending.val := by
  rw [Prelude.text, prelude, textOf_append, textOf_rest, selectorList, List.append_assoc,
    Selector.text]

end Rule

end Preludes

section Pieces

def Prelude.marked (p : Prelude) : Marked :=
  markedOf p.lexemes

def Block.marked (b : Block) : Marked :=
  ('\x7b', .plain) :: markedOf b.lexemes ++ [('\x7d', .plain)]

theorem unmark_prelude (p : Prelude) : unmark p.marked = p.text :=
  unmark_markedOf p.lexemes

theorem unmark_block (b : Block) : unmark b.marked = b.text := by
  have hinside := unmark_markedOf b.lexemes
  rw [unmark] at hinside
  simp [unmark, Block.marked, Block.text, hinside]

theorem mark_prelude (p : Prelude) {c : Char} (hc : c = ';' ∨ c = '\x7b') (rest : List Char) :
    mark (p.text ++ c :: rest) = p.marked ++ (c, .plain) :: mark rest := by
  have hstar : (c :: rest).head? ≠ some '*' := by
    rcases hc with rfl | rfl <;> simp
  have hstop : mark (c :: rest) = (c, .plain) :: mark rest := by
    apply mark_char
    · rcases hc with rfl | rfl <;> simp [IsQuote]
    · rcases hc with rfl | rfl <;> simp
  rw [Prelude.text, mark_append p.closed hstar, hstop, Prelude.marked]

theorem mark_block (b : Block) (rest : List Char) :
    mark (textOf b.lexemes ++ '\x7d' :: rest) =
      markedOf b.lexemes ++ ('\x7d', .plain) :: mark rest := by
  rw [mark_append b.closed (by simp), mark_char (by simp [IsQuote]) (by simp)]

theorem splitPrelude_prelude (p : Prelude) {c : Char} (hc : c = ';' ∨ c = '\x7b') (rest : Marked) :
    splitPrelude? 0 (p.marked ++ (c, .plain) :: rest) = some (p.marked, (c, .plain) :: rest) := by
  have hstop : splitPrelude? 0 ((c, .plain) :: rest) = some ([], (c, .plain) :: rest) := by
    rcases hc with rfl | rfl <;> rfl
  rw [Prelude.marked, splitPrelude_append p.balanced (fun _ h => h) (fun _ h => ⟨h.1, fun _ => h.2⟩),
    hstop]
  simp

theorem splitBlock_block (b : Block) (rest : Marked) :
    splitBlock 0 (b.marked ++ rest) = (b.marked, rest) := by
  have hopen (ms : Marked) : splitBlock 0 (('\x7b', .plain) :: ms) =
      (('\x7b', .plain) :: (splitBlock 1 ms).1, (splitBlock 1 ms).2) := rfl
  have hclose : splitBlock 1 (('\x7d', .plain) :: rest) = ([('\x7d', .plain)], rest) := rfl
  have hmarked : b.marked ++ rest =
      ('\x7b', .plain) :: (markedOf b.lexemes ++ ('\x7d', .plain) :: rest) := by
    simp [Block.marked]
  rw [hmarked, hopen, splitBlock_append b.balanced (fun _ h => h) (fun _ h => h), hclose]
  rfl

structure Prelude.StartsWith (p : Prelude) (c : Char) (m : Mark) : Prop where
  marked : ∃ ms, p.marked = (c, m) :: ms
  comment : m ≠ .comment
  blank : Text.isBlank c = false
  brace : c ≠ '\x7d'

theorem Prelude.startsWith_withAt (p : Prelude) : p.withAt.StartsWith '@' .plain :=
  ⟨⟨markedOf p.lexemes, rfl⟩, by decide, by decide, by decide⟩

theorem Balanced.head_ne {inside outside : Char → Prop} {c : Char} {ls : List Lexeme}
    (h : Balanced BracketPair inside outside (.char c :: ls)) (houtside : ∀ c, outside c → IsGroupChar c) :
    c ≠ '@' ∧ c ≠ '\x7d' := by
  cases h with
  | char hc _ =>
    have := houtside c hc
    simp only [IsGroupChar, List.mem_cons, List.not_mem_nil, or_false, not_or] at this
    tauto
  | group hpair _ _ =>
    rcases hpair with ⟨rfl, _⟩ | ⟨rfl, _⟩ <;> decide

theorem Rule.startsWith_prelude (r : Rule) :
    ∃ c m, r.prelude.StartsWith c m ∧ ¬ (m = .plain ∧ c = '@') := by
  have hne := r.first.nonempty
  have htight := r.first.tight
  cases hls : r.first.lexemes with
  | nil =>
    rw [hls] at hne
    exact absurd rfl hne
  | cons l ls =>
    have hmarked : r.prelude.marked = l.marked ++ (markedOf ls ++ markedOf (rest r.more r.ending)) := by
      have hall : r.prelude.marked = markedOf (r.first.lexemes ++ rest r.more r.ending) := rfl
      rw [hall, hls, markedOf_append, markedOf_cons, List.append_assoc]
    cases l with
    | char c =>
      have hbalanced := r.first.balanced
      rw [hls] at hbalanced
      obtain ⟨hat, hbrace⟩ := hbalanced.head_ne fun _ h => h.1
      have hblank : Text.isBlank c = false := by
        have hleft := htight.left
        rw [Selector.text, hls, textOf_cons, Lexeme.text, List.singleton_append] at hleft
        simpa using List.dropWhile_eq_self_iff.mp hleft (Nat.succ_pos _)
      exact ⟨c, .plain, ⟨⟨_, hmarked⟩, by decide, hblank, hbrace⟩, fun h => hat h.2⟩
    | comment body => exact absurd (hls ▸ List.mem_cons_self) (r.first.bare body)
    | quoted q body =>
      obtain ⟨hquote, _⟩ := r.first.closed.of_mem (hls ▸ List.mem_cons_self)
      refine ⟨q, .quoted, ⟨⟨_, hmarked⟩, by decide, ?_, ?_⟩, by simp⟩
      · rcases hquote with rfl | rfl <;> decide
      · rcases hquote with rfl | rfl <;> decide

theorem piecesOf_statement {p : Prelude} {c : Char} {m : Mark} (h : p.StartsWith c m) (fuel : Nat)
    (rest : Marked) : piecesOf (fuel + 1) (p.marked ++ (';', .plain) :: rest) =
      .kept (p.text ++ [';']) :: piecesOf fuel rest := by
  obtain ⟨ms, hms⟩ := h.marked
  have hsplit := splitPrelude_prelude p (.inl rfl) rest
  have hpass : ¬ (m == .comment || Text.isBlank c || (m == .plain && c == '\x7d')) = true := by
    simp [h.comment, h.blank, h.brace]
  rw [hms, List.cons_append] at hsplit ⊢
  rw [piecesOf, if_neg hpass, hsplit]
  dsimp only
  rw [← hms, unmark_prelude]
  rfl

theorem piecesOf_block {p : Prelude} (b : Block) {c : Char} {m : Mark} (h : p.StartsWith c m)
    (fuel : Nat) (rest : Marked) : piecesOf (fuel + 1) (p.marked ++ (b.marked ++ rest)) =
      (if m == .plain && c == '@' then .kept (p.text ++ b.text) else .rule p.text b.text) ::
        piecesOf fuel rest := by
  obtain ⟨ms, hms⟩ := h.marked
  have hpass : ¬ (m == .comment || Text.isBlank c || (m == .plain && c == '\x7d')) = true := by
    simp [h.comment, h.blank, h.brace]
  have hblock := splitBlock_block b rest
  have hsplit : splitPrelude? 0 (p.marked ++ (b.marked ++ rest)) = some (p.marked, b.marked ++ rest) :=
    splitPrelude_prelude p (.inr rfl) _
  rw [hms, List.cons_append] at hsplit ⊢
  rw [piecesOf, if_neg hpass, hsplit]
  simp only [hblock]
  rw [← hms, unmark_prelude, unmark_block]
  split
  · next heq => cases heq
  · split <;> rfl

end Pieces

namespace Item

def marked : Item → Marked
  | blank c _ => [(c, .plain)]
  | comment body _ => (Lexeme.comment body).marked
  | statement p => p.withAt.marked ++ [(';', .plain)]
  | atBlock p b => p.withAt.marked ++ b.marked
  | rule r => r.prelude.marked ++ r.block.marked

/--
The pieces that an item is cut into.
-/
def pieces : Item → List Piece
  | blank c _ => [.kept [c]]
  | comment body _ => (Lexeme.comment body).text.map fun c => .kept [c]
  | statement p => [.kept (p.withAt.text ++ [';'])]
  | atBlock p b => [.kept (p.withAt.text ++ b.text)]
  | rule r => [.rule r.prelude.text r.block.text]

theorem mark_prelude_block (p : Prelude) (b : Block) (rest : List Char) :
    mark (p.text ++ b.text ++ rest) = p.marked ++ b.marked ++ mark rest := by
  have htext : p.text ++ b.text ++ rest =
      p.text ++ '\x7b' :: (textOf b.lexemes ++ '\x7d' :: rest) := by
    simp [Block.text]
  rw [htext, mark_prelude p (.inr rfl), mark_block]
  simp [Block.marked]

theorem mark_text (item : Item) (rest : List Char) :
    mark (item.text ++ rest) = item.marked ++ mark rest := by
  cases item with
  | blank c h =>
    have hne (d : Char) (hd : Text.isBlank d = false) : c ≠ d := by
      rintro rfl
      rw [hd] at h
      cases h
    apply mark_char
    · rintro (heq | heq)
      · exact hne _ (by decide) heq
      · exact hne _ (by decide) heq
    · intro heq
      exact absurd heq (hne _ (by decide))
  | comment body h =>
    have htext : (Lexeme.comment body).text ++ rest = '/' :: '*' :: (body ++ '*' :: '/' :: rest) := by
      simp [Lexeme.text]
    rw [text, htext, mark, inComment_append h]
    simp [marked, Lexeme.marked, Lexeme.text, Lexeme.mark]
  | statement p =>
    have htext : text (.statement p) ++ rest = p.withAt.text ++ ';' :: rest := by
      simp [text, p.text_withAt]
    rw [htext, mark_prelude p.withAt (.inl rfl), marked, List.append_assoc]
    rfl
  | atBlock p b =>
    rw [text, ← p.text_withAt, mark_prelude_block, marked]
  | rule r =>
    rw [text, ← r.text_prelude, mark_prelude_block, marked]

theorem mark_texts (items : List Item) : mark (items.flatMap text) = items.flatMap marked := by
  induction items with
  | nil => rfl
  | cons item items ih => rw [List.flatMap_cons, List.flatMap_cons, mark_text, ih]

theorem piecesOf_comment {cs : List Char} {rest : Marked} {fuel : Nat}
    (h : (cs.map (·, Mark.comment) ++ rest).length < fuel) :
    ∃ fuel', rest.length < fuel' ∧ piecesOf fuel (cs.map (·, .comment) ++ rest) =
      (cs.map fun c => .kept [c]) ++ piecesOf fuel' rest := by
  induction cs generalizing fuel with
  | nil => exact ⟨fuel, h, rfl⟩
  | cons c cs ih =>
    obtain ⟨fuel, rfl⟩ := Nat.exists_eq_succ_of_ne_zero (Nat.ne_of_gt (Nat.zero_lt_of_lt h))
    obtain ⟨fuel', hfuel, heq⟩ := ih (Nat.lt_of_succ_lt_succ h)
    refine ⟨fuel', hfuel, ?_⟩
    rw [List.map_cons, List.cons_append, piecesOf, if_pos (by rfl), heq]
    rfl

theorem piecesOf_marked (item : Item) {rest : Marked} {fuel : Nat}
    (h : (item.marked ++ rest).length < fuel) :
    ∃ fuel', rest.length < fuel' ∧
      piecesOf fuel (item.marked ++ rest) = item.pieces ++ piecesOf fuel' rest := by
  have hfuel (k : Nat) (hk : fuel = k + 1) (hne : item.marked ≠ []) : rest.length < k := by
    have := List.length_pos_iff.mpr hne
    rw [List.length_append] at h
    omega
  obtain ⟨fuel, rfl⟩ := Nat.exists_eq_succ_of_ne_zero (Nat.ne_of_gt (Nat.zero_lt_of_lt h))
  cases item with
  | blank c hblank =>
    refine ⟨fuel, hfuel fuel rfl (by simp [marked]), ?_⟩
    rw [marked, List.singleton_append, piecesOf, if_pos (by simp [hblank])]
    rfl
  | comment body _ => exact piecesOf_comment h
  | statement p =>
    refine ⟨fuel, hfuel fuel rfl (by simp [marked]), ?_⟩
    rw [marked, List.append_assoc, List.singleton_append, piecesOf_statement p.startsWith_withAt]
    rfl
  | atBlock p b =>
    refine ⟨fuel, hfuel fuel rfl (by simp [marked, Block.marked]), ?_⟩
    rw [marked, List.append_assoc, piecesOf_block b p.startsWith_withAt]
    rfl
  | rule r =>
    obtain ⟨c, m, hstart, hat⟩ := r.startsWith_prelude
    refine ⟨fuel, hfuel fuel rfl (by simp [marked, Block.marked]), ?_⟩
    rw [marked, List.append_assoc, piecesOf_block r.block hstart, if_neg (by simpa using hat)]
    rfl

theorem piecesOf_markeds (items : List Item) {fuel : Nat}
    (h : (items.flatMap marked).length < fuel) :
    piecesOf fuel (items.flatMap marked) = items.flatMap pieces := by
  induction items generalizing fuel with
  | nil =>
    obtain ⟨fuel, rfl⟩ := Nat.exists_eq_succ_of_ne_zero (Nat.ne_of_gt h)
    rfl
  | cons item items ih =>
    rw [List.flatMap_cons] at h ⊢
    obtain ⟨fuel', hfuel, heq⟩ := item.piecesOf_marked h
    rw [heq, ih hfuel, List.flatMap_cons]

theorem unmark_marked (item : Item) : unmark item.marked = item.text := by
  cases item with
  | blank c h => rfl
  | comment body h => simp [marked, text, unmark, Lexeme.marked, Function.comp_def]
  | statement p =>
    have hprelude := unmark_prelude p.withAt
    rw [unmark] at hprelude
    simp [marked, text, unmark, hprelude, p.text_withAt]
  | atBlock p b =>
    rw [marked, unmark, List.map_append, ← unmark, ← unmark, unmark_prelude, unmark_block, text,
      p.text_withAt]
  | rule r =>
    rw [marked, unmark, List.map_append, ← unmark, ← unmark, unmark_prelude, unmark_block, text,
      r.text_prelude]

theorem length_markeds (items : List Item) :
    (items.flatMap marked).length = (items.flatMap text).length := by
  have hitem (item : Item) : item.marked.length = item.text.length := by
    rw [← item.unmark_marked, unmark, List.length_map]
  induction items with
  | nil => rfl
  | cons item items ih =>
    rw [List.flatMap_cons, List.flatMap_cons, List.length_append, List.length_append, hitem, ih]

end Item

theorem pieces_texts (items : List Item) :
    pieces (items.flatMap Item.text) = items.flatMap Item.pieces := by
  rw [pieces, Item.mark_texts]
  apply Item.piecesOf_markeds
  rw [Item.length_markeds]
  exact Nat.lt_succ_self _

/--
What a piece comes to in the scope of an attribute selector that stands for itself.
-/
def Piece.confined (attr : List Char) : Piece → List Char
  | kept text => text
  | rule selectors block =>
    Text.join [',', ' '] ((splitSelectors (Text.trim selectors)).map (confine attr)) ++
      Text.blankEnd selectors ++ block

theorem mapM_ok {ε α β : Type} (f : α → β) (as : List α) :
    as.mapM (fun a => (.ok (f a) : Except ε β)) = .ok (as.map f) :=
  List.mapM_pure

theorem Piece.scoped_of_plain {attr : List Char} (h : '\\' ∉ attr) (piece : Piece) :
    piece.scoped attr = .ok (piece.confined attr) := by
  cases piece with
  | kept text => rfl
  | rule selectors block =>
    have hconfine : scopeSelector attr = fun s => .ok (confine attr s) :=
      funext (scopeSelector_of_plain h)
    rw [Piece.scoped, scopeSelectors, hconfine, mapM_ok]
    rfl

theorem Item.confined_pieces (attr : List Char) (item : Item) :
    item.pieces.flatMap (Piece.confined attr) = item.confined attr := by
  cases item with
  | blank c h => rfl
  | comment body h => simp [pieces, Item.confined, Item.text, List.flatMap_map, Piece.confined]
  | statement p => simp [pieces, Item.confined, Item.text, Piece.confined, p.text_withAt]
  | atBlock p b => simp [pieces, Item.confined, Item.text, Piece.confined, p.text_withAt]
  | rule r =>
    have htrim : Text.trim (r.selectorList ++ r.ending.val) = r.selectorList := by
      rw [← List.nil_append r.selectorList]
      exact r.tight.trim_append (fun c hc => by cases hc) r.ending.property
    have hend := r.tight.blankEnd_append r.ending.property
    simp [pieces, Item.confined, Piece.confined, r.text_prelude, htrim, hend,
      splitSelectors_selectorList]

/--
Scoping a sheet replaces the selectors of its rules and keeps everything else as it is, for every id
without a backslash, such as one of letters, digits, hyphens and underscores.
-/
theorem scopeSheet_texts {id : List Char} (hid : '\\' ∉ id) (items : List Item) :
    scopeSheet id (items.flatMap Item.text) =
      .ok (items.flatMap (Item.confined (attributeSelector id))) := by
  have hattr : '\\' ∉ attributeSelector id := by
    simpa [attributeSelector] using hid
  have hscoped : Piece.scoped (attributeSelector id) =
      fun piece => .ok (piece.confined (attributeSelector id)) :=
    funext (Piece.scoped_of_plain hattr)
  rw [scopeSheet, pieces_texts, hscoped, mapM_ok]
  simp only [Except.map]
  congr 1
  rw [← List.flatMap_def, List.flatMap_assoc]
  exact List.flatMap_congr fun item _ => item.confined_pieces _

theorem closed_chars {cs : List Char} (h : ∀ c ∈ cs, ¬ IsQuote c ∧ c ≠ '/') :
    Closed (cs.map .char) := by
  induction cs with
  | nil => exact .nil
  | cons c cs ih =>
    obtain ⟨hquote, hslash⟩ := h c List.mem_cons_self
    exact .char hquote (fun heq => absurd heq hslash) (ih fun d hd => h d (List.mem_cons_of_mem _ hd))

def paragraph : Selector where
  lexemes := ['p'].map .char
  closed := closed_chars (by simp [IsQuote])
  balanced := .chars (by simp [IsSelectorChar, IsGroupChar])
  bare := by simp
  unescaped := by decide
  trimmed := by decide
  nonempty := by decide

def paragraphRule : Rule where
  first := paragraph
  more := [⟨⟨[' '], by simp [Text.isBlank]⟩, ⟨['\n'], by simp [Text.isBlank]⟩, paragraph⟩]
  ending := ⟨[' '], by simp [Text.isBlank]⟩
  block := ⟨['x'].map .char, closed_chars (by simp [IsQuote]), .chars (by simp [IsBrace])⟩

/--
A comment stays; the selectors of a rule are confined and joined anew, and the blank behind them stays.
-/
theorem paragraph_scoped : '\\' ∉ ['d', '-', '1'] ∧
    scopeSheet ['d', '-', '1'] "/* , */p ,\np \x7bx\x7d".toList =
      .ok "/* , */[d-1] p, [d-1] p \x7bx\x7d".toList := by
  have hid : '\\' ∉ ['d', '-', '1'] := by decide
  have h := scopeSheet_texts hid [.comment [' ', ',', ' '] (by decide), .rule paragraphRule]
  refine ⟨hid, ?_⟩
  have htext : [Item.comment [' ', ',', ' '] (by decide), .rule paragraphRule].flatMap Item.text =
      "/* , */p ,\np \x7bx\x7d".toList := by decide
  have hconfined : [Item.comment [' ', ',', ' '] (by decide), .rule paragraphRule].flatMap
      (Item.confined (attributeSelector ['d', '-', '1'])) =
        "/* , */[d-1] p, [d-1] p \x7bx\x7d".toList := by decide
  rwa [htext, hconfined] at h

end Polyglot.Style
