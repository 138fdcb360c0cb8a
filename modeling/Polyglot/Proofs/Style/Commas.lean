import Polyglot.Proofs.Style.Selectors

/-!
Where selector lists are split. The splitter knows neither comments nor escaped backslashes and lets
a string go on behind a line feed; where a list holds none of what it does not know, it is split at
the commas outside of comments, strings and brackets, and nowhere else.
-/

namespace Polyglot.Style

def cutCommas : Nat → List Lexeme → List (List Lexeme)
  | _, [] => [[]]
  | depth, .char c :: ls =>
    if c == '(' || c == '[' then put (.char c) (cutCommas (depth + 1) ls)
    else if c == ')' || c == ']' then put (.char c) (cutCommas (depth - 1) ls)
    else if c == ',' && depth == 0 then [] :: cutCommas depth ls
    else put (.char c) (cutCommas depth ls)
  | depth, l :: ls => put l (cutCommas depth ls)
where
  put (l : Lexeme) : List (List Lexeme) → List (List Lexeme)
    | [] => [[l]]
    | piece :: pieces => (l :: piece) :: pieces

def selectorsOf (ls : List Lexeme) : List (List Char) :=
  ((cutCommas 0 ls).map fun piece => Text.trim (textOf piece)).filter (!·.isEmpty)

/--
A comment without quotes, brackets and commas, or a string that does not end behind a backslash.
-/
def Lexeme.Legible : Lexeme → Prop
  | char _ => True
  | comment body => ∀ c ∈ body, c ∉ ['"', '\'', '(', ')', '[', ']', ',']
  | quoted _ body => body.getLast? ≠ some '\\'

theorem cutCommas_ne_nil (depth : Nat) (ls : List Lexeme) : cutCommas depth ls ≠ [] := by
  have hput (l : Lexeme) (pieces : List (List Lexeme)) : cutCommas.put l pieces ≠ [] := by
    cases pieces <;> exact List.cons_ne_nil _ _
  rw [cutCommas.eq_def]
  split
  · exact List.cons_ne_nil _ _
  · split
    · exact hput _ _
    · split
      · exact hput _ _
      · split
        · exact List.cons_ne_nil _ _
        · exact hput _ _
  · exact hput _ _

theorem map_textOf_put (l : Lexeme) {pieces : List (List Lexeme)} (h : pieces ≠ []) :
    (cutCommas.put l pieces).map textOf = l.text.foldr splitCommas.put (pieces.map textOf) := by
  obtain ⟨piece, pieces, rfl⟩ := List.exists_cons_of_ne_nil h
  rw [cutCommas.put, List.map_cons, List.map_cons, foldr_put, textOf_cons]

theorem go_plain {cs : List Char} (h : ∀ c ∈ cs, c ∉ ['"', '\'', '(', ')', '[', ']', ','])
    (depth : Nat) (b : Char) (rest : List Char) :
    splitCommas.go depth none b (cs ++ rest) =
      cs.foldr splitCommas.put (splitCommas.go depth none ' ' rest) := by
  induction cs generalizing b with
  | nil => exact go_before depth b ' ' rest
  | cons c cs ih =>
    obtain ⟨hc, hcs⟩ := List.forall_mem_cons.mp h
    simp only [List.mem_cons, List.not_mem_nil, or_false, not_or] at hc
    rw [List.cons_append, splitCommas.go, List.foldr_cons, ← ih hcs c]
    simp [hc]

theorem go_quotable {q : Char} (hq : IsQuote q) {body : List Char} (h : Quotable q body) (depth : Nat)
    {b : Char} (hlast : (b :: body).getLast? ≠ some '\\') (rest : List Char) :
    splitCommas.go depth (some q) b (body ++ q :: rest) =
      (body ++ [q]).foldr splitCommas.put (splitCommas.go depth none ' ' rest) := by
  have hbackslash : '\\' ≠ q := by
    rcases hq with rfl | rfl <;> decide
  induction h generalizing b with
  | nil =>
    have hb : b ≠ '\\' := by simpa using hlast
    simp [splitCommas.go, hb, go_before depth q ' ']
  | @char c cs hquote _ _ _ ih =>
    have hopen : ¬ (c == q && b != '\\') = true := by simp [hquote]
    rw [List.cons_append, splitCommas.go, if_neg hopen, ih (by simpa using hlast)]
    rfl
  | @escaped c cs _ ih =>
    have hopen : ¬ ('\\' == q && b != '\\') = true := by simp [hbackslash]
    have hopen' : ¬ (c == q && '\\' != '\\') = true := by simp
    rw [List.cons_append, List.cons_append, splitCommas.go, if_neg hopen, splitCommas.go,
      if_neg hopen', ih (by simpa using hlast)]
    rfl

theorem go_legible {ls : List Lexeme} (hclosed : Closed ls) (hlegible : ∀ l ∈ ls, l.Legible)
    (depth : Nat) (b : Char) :
    splitCommas.go depth none b (textOf ls) = (cutCommas depth ls).map textOf := by
  induction hclosed generalizing depth b with
  | nil => rfl
  | @char c ls hquote _ _ ih =>
    obtain ⟨-, hlegible⟩ := List.forall_mem_cons.mp hlegible
    simp only [IsQuote, not_or] at hquote
    have hput (depth : Nat) : splitCommas.put c ((cutCommas depth ls).map textOf) =
        (cutCommas.put (.char c) (cutCommas depth ls)).map textOf := by
      rw [map_textOf_put _ (cutCommas_ne_nil depth ls)]
      rfl
    rw [textOf_cons, Lexeme.text, List.singleton_append, splitCommas.go, cutCommas]
    simp only [hquote, beq_iff_eq, if_false, ih hlegible, or_self, Bool.or_eq_true, hput]
    split
    · rfl
    · split
      · rfl
      · split <;> rfl
  | @comment body ls _ _ ih =>
    obtain ⟨hbody, hlegible⟩ := List.forall_mem_cons.mp hlegible
    have htext : ∀ c ∈ (Lexeme.comment body).text, c ∉ ['"', '\'', '(', ')', '[', ']', ','] := by
      intro c hc
      simp only [Lexeme.text, List.cons_append, List.mem_cons, List.mem_append, List.not_mem_nil,
        or_false] at hc
      rcases hc with rfl | rfl | hc | rfl | rfl
      · decide
      · decide
      · exact hbody c hc
      · decide
      · decide
    rw [textOf_cons, go_plain htext, ih hlegible, cutCommas, map_textOf_put _ (cutCommas_ne_nil _ _)]
    simp
  | @quoted q body ls hquote hbody _ ih =>
    obtain ⟨hlast, hlegible⟩ := List.forall_mem_cons.mp hlegible
    have hopen (cs : List Char) : splitCommas.go depth none b (q :: cs) =
        splitCommas.put q (splitCommas.go depth (some q) q cs) := by
      rcases hquote with rfl | rfl <;> rfl
    have hlast : (q :: body).getLast? ≠ some '\\' := by
      cases body with
      | nil => rcases hquote with rfl | rfl <;> decide
      | cons c body => simpa [Lexeme.Legible] using hlast
    have htext : (Lexeme.quoted q body).text ++ textOf ls = q :: (body ++ q :: textOf ls) := by
      simp [Lexeme.text]
    rw [textOf_cons, htext, hopen, go_quotable hquote hbody depth hlast, ih hlegible, cutCommas,
      map_textOf_put _ (cutCommas_ne_nil _ _)]
    · rfl
    · simp

theorem go_cons (depth : Nat) (quote : Option Char) (b c : Char) : ∃ depth' quote',
    (∀ cs, splitCommas.go depth quote b (c :: cs) =
      splitCommas.put c (splitCommas.go depth' quote' c cs)) ∨
    (c = ',' ∧
      ∀ cs, splitCommas.go depth quote b (c :: cs) = [] :: splitCommas.go depth' quote' c cs) := by
  cases quote with
  | some q => exact ⟨depth, _, .inl fun cs => rfl⟩
  | none =>
    by_cases hquote : (c == '"' || c == '\'') = true
    · exact ⟨depth, some c, .inl fun cs => by rw [splitCommas.go, if_pos hquote]⟩
    · by_cases hopen : (c == '(' || c == '[') = true
      · exact ⟨depth + 1, none, .inl fun cs => by rw [splitCommas.go, if_neg hquote, if_pos hopen]⟩
      · by_cases hclose : (c == ')' || c == ']') = true
        · exact ⟨depth - 1, none, .inl fun cs => by
            rw [splitCommas.go, if_neg hquote, if_neg hopen, if_pos hclose]⟩
        · by_cases hcomma : (c == ',' && depth == 0) = true
          · refine ⟨depth, none, .inr ⟨by simp_all, fun cs => ?_⟩⟩
            rw [splitCommas.go, if_neg hquote, if_neg hopen, if_neg hclose, if_pos hcomma]
          · exact ⟨depth, none, .inl fun cs => by
              rw [splitCommas.go, if_neg hquote, if_neg hopen, if_neg hclose, if_neg hcomma]⟩

theorem go_blanks {bs : List Char} (h : ∀ c ∈ bs, Text.isBlank c) (depth : Nat)
    (quote : Option Char) (b : Char) : splitCommas.go depth quote b bs = [bs] := by
  induction bs generalizing depth quote b with
  | nil => cases quote <;> rfl
  | cons c bs ih =>
    obtain ⟨hc, hbs⟩ := List.forall_mem_cons.mp h
    obtain ⟨depth', quote', hput | ⟨rfl, -⟩⟩ := go_cons depth quote b c
    · rw [hput, ih hbs]
      rfl
    · exact absurd hc (by decide)

theorem go_append_blanks {bs : List Char} (h : ∀ c ∈ bs, Text.isBlank c) (depth : Nat)
    (quote : Option Char) (b : Char) (cs : List Char) :
    ∃ front last, splitCommas.go depth quote b cs = front ++ [last] ∧
      splitCommas.go depth quote b (cs ++ bs) = front ++ [last ++ bs] := by
  induction cs generalizing depth quote b with
  | nil => exact ⟨[], [], by cases quote <;> rfl, go_blanks h depth quote b⟩
  | cons c cs ih =>
    obtain ⟨depth', quote', hstep⟩ := go_cons depth quote b c
    obtain ⟨front, last, hgo, hblanks⟩ := ih depth' quote' c
    rcases hstep with hput | ⟨-, hcut⟩
    · rw [List.cons_append, hput, hput, hgo, hblanks]
      cases front with
      | nil => exact ⟨[], c :: last, rfl, rfl⟩
      | cons piece front => exact ⟨(c :: piece) :: front, last, rfl, rfl⟩
    · rw [List.cons_append, hcut, hcut, hgo, hblanks]
      exact ⟨[] :: front, last, rfl, rfl⟩

theorem splitSelectors_trim (cs : List Char) : splitSelectors (Text.trim cs) = splitSelectors cs := by
  obtain ⟨as, bs, hcs, has, hbs⟩ := Text.blanks_trim_blanks cs
  generalize Text.trim cs = body at hcs
  have hfront : (splitCommas (as ++ body)).map Text.trim = (splitCommas body).map Text.trim := by
    obtain ⟨piece, pieces, hgo⟩ : ∃ piece pieces, splitCommas.go 0 none ' ' body = piece :: pieces := by
      obtain ⟨front, last, hgo, -⟩ := go_append_blanks hbs 0 none ' ' body
      cases front with
      | nil => exact ⟨last, [], hgo⟩
      | cons piece front => exact ⟨piece, _, hgo⟩
    have has' : ∀ c ∈ as, c ∉ ['"', '\'', '(', ')', '[', ']', ','] := by
      intro c hc hmem
      have := isSelectorChar_of_blank (has c hc)
      simp_all [IsSelectorChar, IsGroupChar]
    rw [splitCommas, splitCommas, go_plain has', hgo, foldr_put, List.map_cons, List.map_cons,
      Text.trim_blanks_append has]
  have hback : (splitCommas (as ++ body ++ bs)).map Text.trim =
      (splitCommas (as ++ body)).map Text.trim := by
    obtain ⟨front, last, hgo, hblanks⟩ := go_append_blanks hbs 0 none ' ' (as ++ body)
    rw [splitCommas, splitCommas, hgo, hblanks, List.map_append, List.map_append, List.map_singleton,
      List.map_singleton, Text.trim_append_blanks hbs]
  rw [splitSelectors, splitSelectors, hcs, hback, hfront]

theorem splitSelectors_legible {ls : List Lexeme} (hclosed : Closed ls)
    (hlegible : ∀ l ∈ ls, l.Legible) : splitSelectors (textOf ls) = selectorsOf ls := by
  rw [splitSelectors, splitCommas, go_legible hclosed hlegible, selectorsOf, List.map_map]
  rfl

end Polyglot.Style
