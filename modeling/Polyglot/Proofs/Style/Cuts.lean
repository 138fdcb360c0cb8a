import Polyglot.Proofs.Style.Places
import Polyglot.Proofs.Style.Scoping

/-!
How a sheet is cut into pieces, whatever its text: comments, strings, brackets and blocks need not be
closed, and braces and semicolons may stand anywhere.
-/

namespace Polyglot.Style

/--
A text that does not start with something that is kept on its own: a blank, a closing brace or a
comment.
-/
structure Begins (cs : List Char) : Prop where
  first : ∀ c ∈ cs.head?, Text.isBlank c = false ∧ c ≠ '\x7d'
  comment : ¬ ['/', '*'] <+: cs

def Reaches (p : List Char) (c : Char) : Prop :=
  ∃ x, Spot.start.run? .prelude p = some x ∧ x.step? .prelude c = none

/--
A block and what follows it; behind a block that is not closed there is nothing.
-/
inductive BlockBefore : List Char → List Char → Prop where
  | closed {b : List Char} {x : Spot} (h : Spot.run? .block ⟨.plain, 1⟩ b = some x)
      (hend : x.step? .block '\x7d' = none) (rest : List Char) :
      BlockBefore ('\x7b' :: b ++ ['\x7d']) rest
  | unclosed {b : List Char} {x : Spot} (h : Spot.run? .block ⟨.plain, 1⟩ b = some x) :
      BlockBefore ('\x7b' :: b) []

/--
A text and the pieces that it is cut into.
-/
inductive Cuts : List Char → List Piece → Prop where
  | nil : Cuts [] []
  | pass {c : Char} {cs : List Char} {ps : List Piece} (hc : Text.isBlank c ∨ c = '\x7d')
      (hcs : Cuts cs ps) : Cuts (c :: cs) (.kept [c] :: ps)
  | comment {body cs : List Char} {ps : List Piece} (hbody : ¬ ['*', '/'] <:+: body)
      (hcs : Cuts cs ps) : Cuts ((Lexeme.comment body).text ++ cs)
        (((Lexeme.comment body).text.map fun c => .kept [c]) ++ ps)
  | unclosed {body : List Char} (hbody : ¬ ['*', '/'] <:+: body) :
      Cuts ('/' :: '*' :: body) (('/' :: '*' :: body).map fun c => .kept [c])
  | loose {cs : List Char} {x : Spot} (hne : cs ≠ []) (hcs : Begins cs)
      (hrun : Spot.start.run? .prelude cs = some x) : Cuts cs [.kept cs]
  | statement {p cs : List Char} {ps : List Piece} (hp : Begins p) (hend : Reaches p ';')
      (hcs : Cuts cs ps) : Cuts (p ++ ';' :: cs) (.kept (p ++ [';']) :: ps)
  | atBlock {p b cs : List Char} {ps : List Piece} (hp : p.head? = some '@')
      (hend : Reaches p '\x7b') (hb : BlockBefore b cs) (hcs : Cuts cs ps) :
      Cuts (p ++ (b ++ cs)) (.kept (p ++ b) :: ps)
  | rule {p b cs : List Char} {ps : List Piece} (hp : Begins p) (hat : p.head? ≠ some '@')
      (hend : Reaches p '\x7b') (hb : BlockBefore b cs) (hcs : Cuts cs ps) :
      Cuts (p ++ (b ++ cs)) (.rule p b :: ps)

theorem cut_or_not_infix (cs : List Char) : ¬ ['*', '/'] <:+: cs ∨
    ∃ body rest, cs = body ++ '*' :: '/' :: rest ∧ ¬ ['*', '/'] <:+: body := by
  induction cs with
  | nil => exact .inl (by simp)
  | cons c cs ih =>
    by_cases hfront : ['*', '/'] <+: c :: cs
    · obtain ⟨rest, hrest⟩ := hfront
      exact .inr ⟨[], rest, hrest.symm, by simp⟩
    · rcases ih with hcs | ⟨body, rest, rfl, hbody⟩
      · exact .inl fun h => (List.infix_cons_iff.mp h).elim hfront hcs
      · refine .inr ⟨c :: body, rest, rfl, fun h => (List.infix_cons_iff.mp h).elim (fun h => ?_) hbody⟩
        exact hfront (h.trans (List.prefix_append (c :: body) ('*' :: '/' :: rest)))

theorem Begins.front {cs cs' : List Char} (h : Begins (cs ++ cs')) : Begins cs where
  first c hc := h.first c (List.head?_append_of_ne_nil cs (fun hcs => by simp [hcs] at hc) ▸ hc)
  comment hcomment := h.comment (hcomment.trans (List.prefix_append cs cs'))

theorem Reaches.end_eq {p : List Char} {c : Char} (h : Reaches p c) : c = ';' ∨ c = '\x7b' := by
  obtain ⟨x, -, hend⟩ := h
  have := (Spot.step_eq_none hend).2
  simp only [Brackets.prelude, Bool.and_eq_true, Bool.or_eq_true, beq_iff_eq] at this
  exact this.2.symm

theorem begins_atSign {p : List Char} (h : p.head? = some '@') : Begins p := by
  cases p with
  | nil => cases h
  | cons c p =>
    cases h
    exact ⟨by simp [Text.isBlank], by simp⟩

theorem length_block {b rest : List Char} (h : BlockBefore b rest) : 0 < b.length := by
  cases h <;> simp

theorem exists_block (cs : List Char) : ∃ b rest, '\x7b' :: cs = b ++ rest ∧ BlockBefore b rest := by
  rcases Spot.run_or_ends .block ⟨.plain, 1⟩ cs with ⟨x, hrun⟩ | ⟨b, c, rest, x, rfl, hrun, hend⟩
  · exact ⟨_, [], (List.append_nil _).symm, .unclosed hrun⟩
  · have hc : c = '\x7d' := by
      have := (Spot.step_eq_none hend).2
      simp only [Brackets.block, Bool.and_eq_true, beq_iff_eq] at this
      exact this.1
    subst hc
    exact ⟨_, rest, by simp, .closed hrun hend rest⟩

theorem exists_cuts (css : List Char) : ∃ ps, Cuts css ps := by
  induction hlength : css.length using Nat.strong_induction_on generalizing css with
  | h n ih =>
    subst hlength
    have hrest (cs : List Char) (h : cs.length < css.length) : ∃ ps, Cuts cs ps := ih _ h cs rfl
    cases css with
    | nil => exact ⟨[], .nil⟩
    | cons c cs =>
      by_cases hpass : Text.isBlank c ∨ c = '\x7d'
      · obtain ⟨ps, hps⟩ := hrest cs (Nat.lt_succ_self _)
        exact ⟨_, .pass hpass hps⟩
      · by_cases hcomment : ['/', '*'] <+: c :: cs
        · obtain ⟨inner, hinner⟩ := hcomment
          rw [← hinner] at hrest ⊢
          rcases cut_or_not_infix inner with hbody | ⟨body, rest, rfl, hbody⟩
          · exact ⟨_, Cuts.unclosed hbody⟩
          · obtain ⟨ps, hps⟩ := hrest rest (by simp; omega)
            have htext : ['/', '*'] ++ (body ++ '*' :: '/' :: rest) =
                (Lexeme.comment body).text ++ rest := by
              simp [Lexeme.text]
            rw [htext]
            exact ⟨_, .comment hbody hps⟩
        · have hbegins : Begins (c :: cs) := ⟨by simpa using hpass, hcomment⟩
          rcases Spot.run_or_ends .prelude .start (c :: cs) with
            ⟨x, hrun⟩ | ⟨p, d, rest, x, heq, hrun, hend⟩
          · exact ⟨_, .loose (List.cons_ne_nil _ _) hbegins hrun⟩
          · rw [heq] at hbegins hrest ⊢
            have hp := hbegins.front
            rcases (Reaches.end_eq ⟨x, hrun, hend⟩).symm with rfl | rfl
            · obtain ⟨b, rest, hb, hblock⟩ := exists_block rest
              rw [hb] at hrest ⊢
              have hpos := length_block hblock
              obtain ⟨ps, hps⟩ := hrest rest (by simp only [List.length_append]; omega)
              by_cases hat : p.head? = some '@'
              · exact ⟨_, .atBlock hat ⟨x, hrun, hend⟩ hblock hps⟩
              · exact ⟨_, .rule hp hat ⟨x, hrun, hend⟩ hblock hps⟩
            · obtain ⟨ps, hps⟩ := hrest rest (by simp; omega)
              exact ⟨_, .statement hp ⟨x, hrun, hend⟩ hps⟩

section Pieces

theorem Begins.append {p : List Char} {c : Char} (h : Begins p) (hc : c = ';' ∨ c = '\x7b')
    (rest : List Char) : Begins (p ++ c :: rest) := by
  cases p with
  | nil => rcases hc with rfl | rfl <;> exact ⟨by simp [Text.isBlank], by simp⟩
  | cons d p =>
    refine ⟨h.first, fun hcomment => ?_⟩
    cases p with
    | nil => rcases hc with rfl | rfl <;> simp at hcomment
    | cons e p => exact h.comment (by simpa using hcomment)

theorem mark_begins {c : Char} {cs : List Char} (h : Begins (c :: cs)) : ∃ m ms,
    mark (c :: cs) = (c, m) :: ms ∧
      ¬ (m == .comment || Text.isBlank c || (m == .plain && c == '\x7d')) = true ∧
      (m == .plain && c == '@') = (c == '@') := by
  obtain ⟨hblank, hbrace⟩ := h.first c rfl
  rw [mark.eq_def]
  split
  · next heq => cases heq
  · next heq =>
    cases heq
    exact absurd ⟨_, rfl⟩ h.comment
  · next d ds _ heq =>
    cases heq
    split
    · next hquote =>
      refine ⟨.quoted, _, rfl, by simp [hblank], ?_⟩
      rcases Bool.or_eq_true_iff.mp hquote with hc | hc
      · rw [eq_of_beq hc]
        rfl
      · rw [eq_of_beq hc]
        rfl
    · exact ⟨.plain, _, rfl, by simp [hblank, hbrace], by simp⟩

theorem splitPrelude_of_reaches {p : List Char} {c : Char} (hp : Begins p) (hend : Reaches p c)
    (rest : List Char) : ∃ d m ms before, mark (p ++ c :: rest) = (d, m) :: ms ∧
      ¬ (m == .comment || Text.isBlank d || (m == .plain && d == '\x7d')) = true ∧
      (m == .plain && d == '@') = (p.head? == some '@') ∧
      splitPrelude? 0 ((d, m) :: ms) = some (before, (c, .plain) :: mark rest) ∧ unmark before = p := by
  have hbegins := hp.append hend.end_eq rest
  have hc := hend.end_eq
  obtain ⟨x, hrun, hstop⟩ := hend
  obtain ⟨before, hsplit, hbefore⟩ := splitPrelude_of_run hrun hstop rest
  change splitPrelude? 0 (mark (p ++ c :: rest)) = _ at hsplit
  obtain ⟨d, ds, hd⟩ : ∃ d ds, p ++ c :: rest = d :: ds := by
    cases p with
    | nil => exact ⟨c, rest, rfl⟩
    | cons d p => exact ⟨d, _, rfl⟩
  rw [hd] at hbegins hsplit ⊢
  obtain ⟨m, ms, hmark, hpass, hat⟩ := mark_begins hbegins
  rw [hmark] at hsplit
  refine ⟨d, m, ms, before, hmark, hpass, hat.trans ?_, hsplit, hbefore⟩
  cases p with
  | nil =>
    cases hd
    rcases hc with rfl | rfl <;> rfl
  | cons e p =>
    cases hd
    rfl

theorem splitBlock_of_block {b rest : List Char} (h : BlockBefore b rest) : ∃ cs block,
    b ++ rest = '\x7b' :: cs ∧ splitBlock 0 (('\x7b', .plain) :: mark cs) = (block, mark rest) ∧
      unmark block = b := by
  have hopen (ms : Marked) : splitBlock 0 (('\x7b', .plain) :: ms) =
      (('\x7b', .plain) :: (splitBlock 1 ms).1, (splitBlock 1 ms).2) := rfl
  cases h with
  | @closed b x hrun hend =>
    obtain ⟨block, hsplit, hblock⟩ := splitBlock_of_run hrun hend rest
    change splitBlock 1 (mark (b ++ '\x7d' :: rest)) = _ at hsplit
    refine ⟨b ++ '\x7d' :: rest, ('\x7b', .plain) :: block, by simp, by rw [hopen, hsplit], ?_⟩
    rw [List.cons_append, ← hblock]
    rfl
  | @unclosed b x hrun =>
    obtain ⟨block, hsplit, rfl⟩ := splitBlock_open hrun
    change splitBlock 1 (mark (unmark block)) = _ at hsplit
    exact ⟨unmark block, ('\x7b', .plain) :: block, by simp, by rw [hopen, hsplit]; rfl, rfl⟩

theorem inComment_unclosed {body : List Char} (h : ¬ ['*', '/'] <:+: body) :
    mark.inComment body = body.map (·, .comment) := by
  induction body with
  | nil => rfl
  | cons c body ih =>
    have hend : ∀ cs, c = '*' → body = '/' :: cs → False := by
      rintro cs rfl rfl
      exact h ⟨[], cs, rfl⟩
    rw [mark.inComment.eq_3 c body hend, ih fun hin => h (List.infix_cons hin)]
    rfl

theorem piecesOf_nil (fuel : Nat) : piecesOf fuel [] = [] := by
  cases fuel <;> rfl

theorem length_mark (cs : List Char) : (mark cs).length = cs.length := by
  rw [← List.length_map (fun e : Char × Mark => e.1), ← unmark, unmark_mark]

theorem piecesOf_blockBefore {p b cs : List Char} (hp : Begins p) (hend : Reaches p '\x7b')
    (hb : BlockBefore b cs) (fuel : Nat) :
    piecesOf (fuel + 1) (mark (p ++ (b ++ cs))) =
      (if p.head? == some '@' then .kept (p ++ b) else .rule p b) :: piecesOf fuel (mark cs) := by
  obtain ⟨rest, block, heq, hblock, rfl⟩ := splitBlock_of_block hb
  rw [heq]
  obtain ⟨d, m, ms, before, hmark, hpass, hstart, hsplit, rfl⟩ := splitPrelude_of_reaches hp hend rest
  rw [hmark, piecesOf, if_neg hpass, hsplit]
  simp only [hblock, hstart]
  split
  · next hsemi => cases hsemi
  · split <;> rfl

theorem Cuts.piecesOf_eq {css : List Char} {ps : List Piece} (h : Cuts css ps) {fuel : Nat}
    (hfuel : css.length < fuel) : piecesOf fuel (mark css) = ps := by
  induction h generalizing fuel with
  | nil => exact piecesOf_nil fuel
  | @pass c cs ps hc _ ih =>
    obtain ⟨fuel, rfl⟩ := Nat.exists_eq_succ_of_ne_zero (Nat.ne_of_gt (Nat.zero_lt_of_lt hfuel))
    have hmark : mark (c :: cs) = (c, .plain) :: mark cs := by
      have hne (d : Char) (hd : ¬ (Text.isBlank d ∨ d = '\x7d')) : c ≠ d := by
        rintro rfl
        exact hd hc
      apply mark_char
      · rintro (heq | heq)
        · exact hne _ (by decide) heq
        · exact hne _ (by decide) heq
      · intro heq
        exact absurd heq (hne _ (by decide))
    rw [hmark, piecesOf, if_pos (by simpa using hc), ih (Nat.lt_of_succ_lt_succ hfuel)]
  | @comment body cs ps hbody _ ih =>
    have hmark : mark ((Lexeme.comment body).text ++ cs) =
        (Lexeme.comment body).text.map (·, .comment) ++ mark cs := by
      have htext : (Lexeme.comment body).text ++ cs = '/' :: '*' :: (body ++ '*' :: '/' :: cs) := by
        simp [Lexeme.text]
      rw [htext, mark, inComment_append hbody]
      simp [Lexeme.text]
    rw [← length_mark, hmark] at hfuel
    obtain ⟨fuel', hfuel', heq⟩ := Item.piecesOf_comment hfuel
    rw [length_mark] at hfuel'
    rw [hmark, heq, ih hfuel']
  | @unclosed body hbody =>
    have hmark : mark ('/' :: '*' :: body) = ('/' :: '*' :: body).map (·, .comment) ++ [] := by
      rw [mark, inComment_unclosed hbody]
      simp
    rw [← length_mark, hmark] at hfuel
    obtain ⟨fuel', -, heq⟩ := Item.piecesOf_comment hfuel
    rw [hmark, heq, piecesOf_nil, List.append_nil]
  | @loose cs x hne hcs hrun =>
    obtain ⟨fuel, rfl⟩ := Nat.exists_eq_succ_of_ne_zero (Nat.ne_of_gt (Nat.zero_lt_of_lt hfuel))
    obtain ⟨c, cs, rfl⟩ := List.exists_cons_of_ne_nil hne
    obtain ⟨m, ms, hmark, hpass, -⟩ := mark_begins hcs
    have hnone := splitPrelude_eq_none hrun
    change splitPrelude? 0 (mark (c :: cs)) = none at hnone
    have htext := unmark_mark (c :: cs)
    rw [hmark] at hnone htext
    rw [hmark, piecesOf, if_neg hpass, hnone, htext]
  | @statement p cs ps hp hend _ ih =>
    obtain ⟨fuel, rfl⟩ := Nat.exists_eq_succ_of_ne_zero (Nat.ne_of_gt (Nat.zero_lt_of_lt hfuel))
    obtain ⟨d, m, ms, before, hmark, hpass, -, hsplit, rfl⟩ := splitPrelude_of_reaches hp hend cs
    rw [hmark, piecesOf, if_neg hpass, hsplit]
    simp only [List.length_append, List.length_cons] at hfuel
    change .kept (unmark before ++ [';']) :: piecesOf fuel (mark cs) = _
    rw [ih (by omega)]
  | @atBlock p b cs ps hat hend hb _ ih =>
    obtain ⟨fuel, rfl⟩ := Nat.exists_eq_succ_of_ne_zero (Nat.ne_of_gt (Nat.zero_lt_of_lt hfuel))
    have hpos := length_block hb
    simp only [List.length_append] at hfuel
    rw [piecesOf_blockBefore (begins_atSign hat) hend hb, ih (by omega), if_pos (beq_iff_eq.mpr hat)]
  | @rule p b cs ps hp hat hend hb _ ih =>
    obtain ⟨fuel, rfl⟩ := Nat.exists_eq_succ_of_ne_zero (Nat.ne_of_gt (Nat.zero_lt_of_lt hfuel))
    have hpos := length_block hb
    simp only [List.length_append] at hfuel
    rw [piecesOf_blockBefore hp hend hb, ih (by omega), if_neg (mt beq_iff_eq.mp hat)]

theorem Cuts.pieces_eq {css : List Char} {ps : List Piece} (h : Cuts css ps) : pieces css = ps :=
  h.piecesOf_eq (Nat.lt_succ_self _)

theorem cuts_pieces (css : List Char) : Cuts css (pieces css) := by
  obtain ⟨ps, hps⟩ := exists_cuts css
  rw [hps.pieces_eq]
  exact hps

end Pieces

section Texts

variable {css : List Char} {ps : List Piece}

theorem head_block {b rest : List Char} (h : BlockBefore b rest) : b.head? = some '\x7b' := by
  cases h <;> rfl

theorem Cuts.flatMap_text (h : Cuts css ps) : ps.flatMap Piece.text = css := by
  induction h with
  | nil => rfl
  | pass _ _ ih => rw [List.flatMap_cons, ih, Piece.text, List.singleton_append]
  | comment _ _ ih => simp [List.flatMap_map, Piece.text, ih]
  | unclosed _ => simp [List.flatMap_map, Piece.text]
  | loose _ _ _ => simp [Piece.text]
  | statement _ _ _ ih => simp [Piece.text, ih]
  | atBlock _ _ _ _ ih => simp [Piece.text, ih]
  | rule _ _ _ _ _ ih => simp [Piece.text, ih]

theorem Cuts.rule_of_mem (h : Cuts css ps) {p b : List Char} (hmem : .rule p b ∈ ps) :
    Begins p ∧ p.head? ≠ some '@' ∧ b.head? = some '\x7b' := by
  induction h with
  | nil => cases hmem
  | pass _ _ ih => exact ih (by simpa using hmem)
  | comment _ _ ih => exact ih (by simpa using hmem)
  | unclosed _ => simp at hmem
  | loose _ _ _ => simp at hmem
  | statement _ _ _ ih => exact ih (by simpa using hmem)
  | atBlock _ _ _ _ ih => exact ih (by simpa using hmem)
  | rule hp hat _ hb _ ih =>
    rcases List.mem_cons.mp hmem with heq | hmem
    · cases heq
      exact ⟨hp, hat, head_block hb⟩
    · exact ih hmem

end Texts

/-!
What scoping does to any text: the preludes of its rules are written anew where they stand, and every
other character is kept in its place.
-/

theorem scopeSelectors_of_plain {attr : List Char} (h : '\\' ∉ attr) (selectors : List Char) :
    scopeSelectors attr selectors =
      .ok (Text.join [',', ' '] ((splitSelectors selectors).map (confine attr))) := by
  rw [scopeSelectors, funext (scopeSelector_of_plain h), mapM_ok]
  rfl

theorem not_mem_attributeSelector {id : List Char} (h : '\\' ∉ id) : '\\' ∉ attributeSelector id := by
  simpa [attributeSelector] using h

theorem scopeSheet_of_plain {id : List Char} (h : '\\' ∉ id) (css : List Char) :
    scopeSheet id css = .ok ((pieces css).flatMap (Piece.confined (attributeSelector id))) := by
  rw [scopeSheet, funext (Piece.scoped_of_plain (not_mem_attributeSelector h)), mapM_ok]
  rfl

/--
The prelude of a rule, unless it is empty.
-/
def Piece.prelude? : Piece → Option (List Char)
  | kept _ => none
  | rule p _ => if p.isEmpty then none else some p

/--
The prelude of a rule, what is written in its place, and the text behind it up to the next one.
-/
structure Stretch where
  prelude : List Char
  written : List Char
  kept : List Char

namespace Stretch

def source (s : Stretch) : List Char :=
  s.prelude ++ s.kept

def result (s : Stretch) : List Char :=
  s.written ++ s.kept

/--
The prelude does not begin with anything that is kept on its own nor with an at-sign, a block stands
behind it, and it is written as its scoped selectors with the blanks at its end.
-/
structure Scoped (attr : List Char) (s : Stretch) : Prop where
  nonempty : s.prelude ≠ []
  begins : Begins s.prelude
  noAt : s.prelude.head? ≠ some '@'
  written : ∃ selectors, scopeSelectors attr (Text.trim s.prelude) = .ok selectors ∧
    s.written = selectors ++ Text.blankEnd s.prelude
  kept : s.kept.head? = some '\x7b'

end Stretch

theorem exists_stretches {attr : List Char} (hattr : '\\' ∉ attr) (ps : List Piece)
    (h : ∀ p b, .rule p b ∈ ps → Begins p ∧ p.head? ≠ some '@' ∧ b.head? = some '\x7b') :
    ∃ (front : List Char) (stretches : List Stretch),
      ps.flatMap Piece.text = front ++ stretches.flatMap Stretch.source ∧
      ps.flatMap (Piece.confined attr) = front ++ stretches.flatMap Stretch.result ∧
      (∀ s ∈ stretches, s.Scoped attr) ∧ stretches.map (·.prelude) = ps.filterMap Piece.prelude? := by
  induction ps with
  | nil => exact ⟨[], [], rfl, rfl, by simp, rfl⟩
  | cons piece ps ih =>
    obtain ⟨front, stretches, htext, hconfined, hscoped, hpreludes⟩ :=
      ih fun p b hmem => h p b (List.mem_cons_of_mem _ hmem)
    rw [List.flatMap_cons, List.flatMap_cons, htext, hconfined]
    cases piece with
    | kept text =>
      exact ⟨text ++ front, stretches, by simp [Piece.text], by simp [Piece.confined], hscoped,
        hpreludes⟩
    | rule p b =>
      obtain ⟨hbegins, hat, hb⟩ := h p b List.mem_cons_self
      by_cases hp : p = []
      · subst hp
        have hnone : Piece.confined attr (.rule [] b) = b := rfl
        exact ⟨b ++ front, stretches, by simp [Piece.text], by simp [hnone], hscoped, hpreludes⟩
      · -- The text that was kept in front of the next prelude now stands behind this one.
        refine ⟨[], ⟨p, Text.join [',', ' '] ((splitSelectors (Text.trim p)).map (confine attr)) ++
          Text.blankEnd p, b ++ front⟩ :: stretches, ?_, ?_, ?_, ?_⟩
        · simp [Piece.text, Stretch.source]
        · simp [Piece.confined, Stretch.result]
        · refine List.forall_mem_cons.mpr ⟨⟨hp, hbegins, hat, ?_, ?_⟩, hscoped⟩
          · exact ⟨_, scopeSelectors_of_plain hattr _, rfl⟩
          · rw [List.head?_append, hb]
            rfl
        · rw [List.map_cons, hpreludes]
          simp [Piece.prelude?, hp]

/--
Scoping a sheet loses, repeats and moves nothing, whatever its text: what is written anew are the
preludes of its rules, each where it stands, and a text without an opening brace has none.
-/
theorem scopeSheet_stretches {id : List Char} (hid : '\\' ∉ id) (css : List Char) :
    ∃ (front : List Char) (stretches : List Stretch),
      css = front ++ stretches.flatMap Stretch.source ∧
      scopeSheet id css = .ok (front ++ stretches.flatMap Stretch.result) ∧
      (∀ s ∈ stretches, s.Scoped (attributeSelector id)) ∧
      stretches.map (·.prelude) = (pieces css).filterMap Piece.prelude? ∧
      ('\x7b' ∉ css → scopeSheet id css = .ok css) := by
  have hcuts := cuts_pieces css
  obtain ⟨front, stretches, htext, hconfined, hscoped, hpreludes⟩ :=
    exists_stretches (not_mem_attributeSelector hid) (pieces css) fun p b => hcuts.rule_of_mem
  have hresult : scopeSheet id css = .ok (front ++ stretches.flatMap Stretch.result) := by
    rw [scopeSheet_of_plain hid, hconfined]
  rw [hcuts.flatMap_text] at htext
  refine ⟨front, stretches, htext, hresult, hscoped, hpreludes, fun hbrace => ?_⟩
  have hnone : stretches = [] := by
    rw [List.eq_nil_iff_forall_not_mem]
    intro s hs
    apply hbrace
    rw [htext]
    have hkept := List.mem_of_head? (hscoped s hs).kept
    exact List.mem_append_right _ (List.mem_flatMap.mpr ⟨s, hs, List.mem_append_right _ hkept⟩)
  rw [hresult, htext, hnone]
  rfl

/--
A stray brace, an empty prelude and a block that is never closed.
-/
theorem stray_stretches : '\\' ∉ ['d'] ∧
    scopeSheet ['d'] "\x7d ,a \x7b\x7d\x7b\x7d b,:root\x7b".toList =
      .ok "\x7d [d] a \x7b\x7d\x7b\x7d [d] b, [d]\x7b".toList ∧
    ∃ (front : List Char) (stretches : List Stretch),
      "\x7d ,a \x7b\x7d\x7b\x7d b,:root\x7b".toList = front ++ stretches.flatMap Stretch.source ∧
      "\x7d [d] a \x7b\x7d\x7b\x7d [d] b, [d]\x7b".toList =
        front ++ stretches.flatMap Stretch.result ∧
      stretches.map (·.prelude) = [",a ".toList, "b,:root".toList] := by
  have hid : '\\' ∉ ['d'] := by decide
  have hresult : scopeSheet ['d'] "\x7d ,a \x7b\x7d\x7b\x7d b,:root\x7b".toList =
      .ok "\x7d [d] a \x7b\x7d\x7b\x7d [d] b, [d]\x7b".toList := by rfl
  obtain ⟨front, stretches, htext, hscoped, -, hpreludes, -⟩ :=
    scopeSheet_stretches hid "\x7d ,a \x7b\x7d\x7b\x7d b,:root\x7b".toList
  rw [hresult] at hscoped
  exact ⟨hid, hresult, front, stretches, htext, Except.ok.inj hscoped, hpreludes⟩

end Polyglot.Style
