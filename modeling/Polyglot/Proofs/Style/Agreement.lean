import Polyglot.Proofs.Style.Preludes
import Polyglot.Proofs.Style.Spans

/-!
The selectors of a scoped sheet. Every selector that the splitter finds comes out with the scope's
attribute. The splitter and the scanner of sheets agree on what the selectors of a rule are where its
prelude is written so that both can read it; where they do not agree, selectors come out without the
attribute.
-/

namespace Polyglot.Style

theorem contains_confine (attr selector : List Char) : Text.contains attr (confine attr selector) := by
  rw [confine]
  split
  · assumption
  · split
    · exact Text.contains_of_infix ⟨[], ' ' :: selector, rfl⟩
    · next cuts tail hcuts _ =>
      cases cuts with
      | nil => exact absurd rfl hcuts
      | cons cut cuts =>
        apply Text.contains_of_infix
        exact ⟨cut.1, (cuts.flatMap fun cut => cut.1 ++ attr) ++ tail, by simp⟩

/--
What the selectors of a prelude become, as one list.
-/
def confinedList (attr prelude : List Char) : List Char :=
  Text.join [',', ' '] ((splitSelectors (Text.trim prelude)).map (confine attr))

/--
The splitter and the scanner read a prelude alike: as the lexemes that the scanner marks, with the
selectors that stand between its commas. The comments and strings stay if no scope pseudo-class is
written in them.
-/
structure Agrees (attr prelude : List Char) (ls : List Lexeme) : Prop where
  marked : mark prelude = markedOf ls
  selectors : splitSelectors (Text.trim prelude) = selectorsOf ls
  kept : (∀ l ∈ ls, l.Inert) → Holds (confinedList attr prelude) (spans ls)

theorem plain_attributeSelector {id : List Char} (hid : ∀ c ∈ id, Text.isWord c ∨ c = '-') :
    ∀ c ∈ attributeSelector id, c ≠ '\\' ∧ ¬ IsQuote c ∧ c ≠ '/' := by
  have hne {c : Char} (hc : Text.isWord c ∨ c = '-') (d : Char) (hword : Text.isWord d = false)
      (hdash : d ≠ '-') : c ≠ d := by
    rintro rfl
    rcases hc with hc | hc
    · rw [hword] at hc
      cases hc
    · exact hdash hc
  intro c hc
  simp only [attributeSelector, List.cons_append, List.mem_cons, List.mem_append, List.not_mem_nil,
    or_false] at hc
  rcases hc with rfl | hc | rfl
  · simp [IsQuote]
  · have hc := hid c hc
    refine ⟨hne hc _ (by decide) (by decide), ?_, hne hc _ (by decide) (by decide)⟩
    rintro (heq | heq)
    · exact hne hc _ (by decide) (by decide) heq
    · exact hne hc _ (by decide) (by decide) heq
  · simp [IsQuote]

theorem Holds.eq_nil {found : List Lexeme} (h : Holds [] found) : found = [] := by
  obtain ⟨ls, -, htext, rfl⟩ := h
  cases ls with
  | nil => rfl
  | cons l ls =>
    rw [textOf_cons, List.append_eq_nil_iff] at htext
    exact absurd htext.1 l.text_ne_nil

theorem holds_confine_pieces {attr : List Char} (hattr : ∀ c ∈ attr, ¬ IsQuote c ∧ c ≠ '/')
    (hstar : ∀ rest, (attr ++ rest).head? ≠ some '*') {pieces : List (List Lexeme)}
    (hclosed : ∀ piece ∈ pieces, Closed piece) (hinert : ∀ l ∈ pieces.flatMap spans, l.Inert) :
    ∃ found, List.Forall₂ Holds
        (((pieces.map fun piece => Text.trim (textOf piece)).filter (!·.isEmpty)).map (confine attr))
        found ∧ found.flatten = pieces.flatMap spans := by
  induction pieces with
  | nil => exact ⟨[], .nil, rfl⟩
  | cons piece pieces ih =>
    obtain ⟨hpiece, hclosed⟩ := List.forall_mem_cons.mp hclosed
    rw [List.flatMap_cons] at hinert
    obtain ⟨found, hfound, hflatten⟩ :=
      ih hclosed fun l hl => hinert l (List.mem_append_right _ hl)
    have htrim : Holds (Text.trim (textOf piece)) (spans piece) :=
      Holds.trim ⟨piece, hpiece, rfl, rfl⟩
    rw [List.map_cons, List.filter_cons, List.flatMap_cons]
    split
    · refine ⟨spans piece :: found, ?_, by rw [List.flatten_cons, hflatten]⟩
      exact .cons (htrim.confine hattr hstar fun l hl => hinert l (List.mem_append_left _ hl)) hfound
    · next hblank =>
      have hempty : Text.trim (textOf piece) = [] := by simpa using hblank
      rw [hempty] at htrim
      exact ⟨found, hfound, by rw [hflatten, htrim.eq_nil, List.nil_append]⟩

theorem agrees_of_legible {attr : List Char} (hattr : ∀ c ∈ attr, ¬ IsQuote c ∧ c ≠ '/')
    (hstar : ∀ rest, (attr ++ rest).head? ≠ some '*') {ls : List Lexeme} (hclosed : Closed ls)
    (hlegible : ∀ l ∈ ls, l.Legible) : Agrees attr (textOf ls) ls := by
  have hselectors : splitSelectors (Text.trim (textOf ls)) = selectorsOf ls := by
    rw [splitSelectors_trim, splitSelectors_legible hclosed hlegible]
  have hmark : mark (textOf ls ++ []) = markedOf ls ++ mark [] := mark_append hclosed (by simp)
  refine ⟨by simpa [mark] using hmark, hselectors, ?_⟩
  intro hinert
  obtain ⟨first, more, hcut, hparted⟩ := parted_cutCommas hclosed 0
  obtain ⟨found, hfound, hflatten⟩ := holds_confine_pieces hattr hstar hparted.closed fun l hl =>
    hinert l (List.mem_filter.mp (hparted.spans ▸ hl)).1
  rw [confinedList, hselectors, selectorsOf, hcut, ← hparted.spans, ← hflatten]
  exact holds_join hfound

/--
Every style rule of a sheet is found where its prelude stands, every selector that its prelude is
split into comes out with the scope's attribute, and all else is kept. If in the prelude every string
is closed at a quote without a backslash in front, and there are no quotes, brackets and commas in its
comments, then it is split at its commas outside of comments, strings and brackets.
-/
theorem scopeSheet_selectors {id : List Char} (hid : ∀ c ∈ id, Text.isWord c ∨ c = '-')
    (css : List Char) :
    scopeSheet id css = .ok ((pieces css).flatMap (Piece.confined (attributeSelector id))) ∧
      ∀ front prelude block back, pieces css = front ++ .rule prelude block :: back →
        (∃ before after, mark css = before ++ (mark prelude ++ after) ∧
          unmark before = front.flatMap Piece.text) ∧
        (Piece.rule prelude block).confined (attributeSelector id) =
          confinedList (attributeSelector id) prelude ++ Text.blankEnd prelude ++ block ∧
        (∀ selector ∈ splitSelectors (Text.trim prelude),
          Text.contains (attributeSelector id) (confine (attributeSelector id) selector)) ∧
        ∀ ls, Closed ls → textOf ls = prelude → (∀ l ∈ ls, l.Legible) →
          Agrees (attributeSelector id) prelude ls := by
  have hplain := plain_attributeSelector hid
  have hbackslash : '\\' ∉ attributeSelector id := fun h => (hplain _ h).1 rfl
  refine ⟨?_, fun front prelude block back h => ⟨mark_of_pieces h, rfl, fun selector _ =>
    contains_confine _ selector, ?_⟩⟩
  · rw [scopeSheet, funext (Piece.scoped_of_plain hbackslash), mapM_ok]
    rfl
  · rintro ls hclosed rfl hlegible
    exact agrees_of_legible (fun c hc => (hplain c hc).2) (by simp [attributeSelector]) hclosed hlegible

def titledLexemes : List Lexeme :=
  "a[t=".toList.map .char ++ .quoted '"' ['\\', '"', ','] :: .char ']' :: .comment ['x'] ::
    " ,b:root ".toList.map .char

theorem closed_titledLexemes : Closed titledLexemes := by
  have hback : Closed (" ,b:root ".toList.map .char) :=
    closed_chars (by simp [IsQuote])
  have hcomment : Closed (.char ']' :: .comment ['x'] :: " ,b:root ".toList.map .char) :=
    .char (by simp [IsQuote]) (by simp) (.comment (by decide) hback)
  have hstring : Quotable '"' ['\\', '"', ','] :=
    .escaped (.char (by decide) (by decide) (by decide) .nil)
  exact (Closed.quoted (.inl rfl) hstring hcomment).chars_append (by simp [IsQuote])

theorem titled_agrees :
    (∀ c ∈ ['d'], Text.isWord c ∨ c = '-') ∧
      pieces "a[t=\"\\\",\"]/*x*/ ,b:root \x7bc\x7d".toList =
        [.rule "a[t=\"\\\",\"]/*x*/ ,b:root ".toList "\x7bc\x7d".toList] ∧
      Agrees (attributeSelector ['d']) "a[t=\"\\\",\"]/*x*/ ,b:root ".toList titledLexemes := by
  have hid : ∀ c ∈ ['d'], Text.isWord c ∨ c = '-' := by simp [show Text.isWord 'd' from rfl]
  have hpieces : pieces "a[t=\"\\\",\"]/*x*/ ,b:root \x7bc\x7d".toList =
      [.rule "a[t=\"\\\",\"]/*x*/ ,b:root ".toList "\x7bc\x7d".toList] := by
    rfl
  have hlegible : ∀ l ∈ titledLexemes, l.Legible := by
    intro l hl
    simp only [titledLexemes, List.mem_append, List.mem_cons, List.mem_map] at hl
    rcases hl with ⟨c, -, rfl⟩ | rfl | rfl | rfl | ⟨c, -, rfl⟩
    · trivial
    · simp [Lexeme.Legible]
    · trivial
    · simp [Lexeme.Legible]
    · trivial
  have hrule := (scopeSheet_selectors hid _).2 [] _ _ [] hpieces
  exact ⟨hid, hpieces, hrule.2.2.2 titledLexemes closed_titledLexemes rfl hlegible⟩

-- A quote in a comment hides the comma behind it from the splitter: `b` comes out unconfined.
example : scopeSheet ['d'] "a/*'*/, b\x7bc\x7d".toList = .ok "[d] a/*'*/, b\x7bc\x7d".toList :=
  rfl

end Polyglot.Style
