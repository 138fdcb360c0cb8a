import Polyglot.Proofs.Style.Commas
import Polyglot.Proofs.Style.Scoping
import Polyglot.Proofs.Text.Search

/-!
The comments and strings of a selector list: they stay what they are when each of its selectors is
confined, if no scope pseudo-class is written in them.
-/

namespace Polyglot.Style

namespace Lexeme

def isSpan : Lexeme → Bool
  | char _ => false
  | _ => true

theorem text_ne_nil (l : Lexeme) : l.text ≠ [] := by
  cases l <;> exact List.cons_ne_nil _ _

end Lexeme

def PseudoScope (word : List Char) : Prop :=
  word = ":scope".toList ∨ word = ":root".toList

def Lexeme.Inert (l : Lexeme) : Prop :=
  l.isSpan → ∀ word, PseudoScope word → ¬ word <:+: l.text

def spans (ls : List Lexeme) : List Lexeme :=
  ls.filter Lexeme.isSpan

def Holds (cs : List Char) (found : List Lexeme) : Prop :=
  ∃ ls, Closed ls ∧ textOf ls = cs ∧ spans ls = found

section Ends

theorem Closed.tail {l : Lexeme} {ls : List Lexeme} (h : Closed (l :: ls)) : Closed ls := by
  cases h <;> assumption

theorem Closed.front {ls ls' : List Lexeme} (h : Closed (ls ++ ls')) : Closed ls := by
  induction ls with
  | nil => exact .nil
  | cons l ls ih =>
    have hls := ih h.tail
    rw [List.cons_append] at h
    cases h with
    | char hquote hcomment _ =>
      refine .char hquote (fun hc hhead => hcomment hc ?_) hls
      rw [textOf_append, List.head?_append, hhead]
      rfl
    | comment hbody _ => exact .comment hbody hls
    | quoted hquote hbody _ => exact .quoted hquote hbody hls

theorem Closed.behind {ls ls' : List Lexeme} (h : Closed (ls ++ ls')) : Closed ls' := by
  induction ls with
  | nil => exact h
  | cons l ls ih => exact ih h.tail

theorem Closed.chars_append {ls : List Lexeme} (h : Closed ls) {front : List Char}
    (hfront : ∀ c ∈ front, ¬ IsQuote c ∧ c ≠ '/') : Closed (front.map .char ++ ls) := by
  induction front with
  | nil => exact h
  | cons c front ih =>
    obtain ⟨hc, hmore⟩ := List.forall_mem_cons.mp hfront
    exact .char hc.1 (fun heq => absurd heq hc.2) (ih hmore)

theorem eq_chars_append {ls : List Lexeme} (hclosed : Closed ls) {front rest : List Char}
    (hfront : ∀ c ∈ front, ¬ IsQuote c ∧ c ≠ '/') (h : textOf ls = front ++ rest) :
    ∃ ls', ls = front.map .char ++ ls' ∧ textOf ls' = rest := by
  induction front generalizing ls with
  | nil => exact ⟨ls, rfl, h⟩
  | cons c front ih =>
    obtain ⟨hc, hmore⟩ := List.forall_mem_cons.mp hfront
    cases hclosed with
    | nil => cases h
    | char _ _ hls =>
      obtain ⟨rfl, htext⟩ := List.cons.inj h
      obtain ⟨ls', rfl, hrest⟩ := ih hls hmore htext
      exact ⟨ls', rfl, hrest⟩
    | comment _ _ =>
      obtain ⟨rfl, -⟩ := List.cons.inj h
      exact absurd rfl hc.2
    | quoted hquote _ _ =>
      obtain ⟨rfl, -⟩ := List.cons.inj h
      exact absurd hquote hc.1

theorem eq_append_char {ls : List Lexeme} (hclosed : Closed ls) {front : List Char} {c : Char}
    (hc : ¬ IsQuote c ∧ c ≠ '/') (h : textOf ls = front ++ [c]) :
    ∃ ls', ls = ls' ++ [.char c] ∧ textOf ls' = front := by
  obtain rfl | ⟨ls', l, rfl⟩ := List.eq_nil_or_concat ls
  · simp [textOf] at h
  · rw [List.concat_eq_append] at hclosed h ⊢
    have hlast : textOf ls' ++ l.text = front ++ [c] := by simpa [textOf] using h
    cases l with
    | char d =>
      obtain ⟨hfront, hd⟩ := List.append_inj' hlast rfl
      cases hd
      exact ⟨ls', rfl, hfront⟩
    | comment body =>
      have : (textOf ls' ++ '/' :: '*' :: body ++ ['*']) ++ ['/'] = front ++ [c] := by
        simpa [Lexeme.text] using hlast
      obtain ⟨-, hd⟩ := List.append_inj' this rfl
      cases hd
      exact absurd rfl hc.2
    | quoted q body =>
      have : (textOf ls' ++ q :: body) ++ [q] = front ++ [c] := by
        simpa [Lexeme.text] using hlast
      obtain ⟨-, hd⟩ := List.append_inj' this rfl
      cases hd
      obtain ⟨hquote, -⟩ := hclosed.of_mem (List.mem_append_right ls' List.mem_cons_self)
      exact absurd hquote hc.1

theorem eq_append_chars {ls : List Lexeme} (hclosed : Closed ls) {front back : List Char}
    (hback : ∀ c ∈ back, ¬ IsQuote c ∧ c ≠ '/') (h : textOf ls = front ++ back) :
    ∃ ls', ls = ls' ++ back.map .char ∧ textOf ls' = front := by
  induction back generalizing front with
  | nil => exact ⟨ls, (List.append_nil _).symm, by simpa using h⟩
  | cons c back ih =>
    obtain ⟨hc, hmore⟩ := List.forall_mem_cons.mp hback
    have htext : textOf ls = (front ++ [c]) ++ back := by simpa using h
    obtain ⟨ls', rfl, hls'⟩ := ih hmore htext
    obtain ⟨ls'', rfl, hls''⟩ := eq_append_char hclosed.front hc hls'
    exact ⟨ls'', by simp, hls''⟩

theorem spans_append (ls ls' : List Lexeme) : spans (ls ++ ls') = spans ls ++ spans ls' :=
  List.filter_append _ _

theorem spans_chars (cs : List Char) : spans (cs.map .char) = [] := by
  simp [spans, Lexeme.isSpan]

theorem ne_of_blank {c : Char} (h : Text.isBlank c) : ¬ IsQuote c ∧ c ≠ '/' := by
  constructor
  · rintro (rfl | rfl) <;> exact absurd h (by decide)
  · rintro rfl
    exact absurd h (by decide)

theorem Holds.trim {cs : List Char} {found : List Lexeme} (h : Holds cs found) :
    Holds (Text.trim cs) found := by
  obtain ⟨ls, hclosed, rfl, rfl⟩ := h
  obtain ⟨as, bs, heq, has, hbs⟩ := Text.blanks_trim_blanks (textOf ls)
  obtain ⟨front, rfl, hfront⟩ := eq_append_chars hclosed (fun c hc => ne_of_blank (hbs c hc)) heq
  obtain ⟨ls', rfl, hls'⟩ :=
    eq_chars_append hclosed.front (fun c hc => ne_of_blank (has c hc)) hfront
  refine ⟨ls', hclosed.front.behind, hls', ?_⟩
  rw [spans_append, spans_append, spans_chars, spans_chars, List.nil_append, List.append_nil]

end Ends

section Commas

/--
Pieces of a text that hold, one after the other, what the text holds.
-/
structure Parted (ls first : List Lexeme) (more : List (List Lexeme)) : Prop where
  closed : ∀ piece ∈ first :: more, Closed piece
  spans : (first :: more).flatMap spans = spans ls
  front : ∃ behind, textOf ls = textOf first ++ behind

theorem Parted.put {l : Lexeme} {ls first : List Lexeme} {more : List (List Lexeme)}
    (h : Parted ls first more) (hclosed : Closed (l :: ls)) : Parted (l :: ls) (l :: first) more := by
  obtain ⟨hfirst, hmore⟩ := List.forall_mem_cons.mp h.closed
  obtain ⟨behind, hbehind⟩ := h.front
  refine ⟨List.forall_mem_cons.mpr ⟨?_, hmore⟩, ?_, ⟨behind, by simp [hbehind]⟩⟩
  · cases hclosed with
    | char hquote hcomment _ =>
      refine .char hquote (fun hc hhead => hcomment hc ?_) hfirst
      rw [hbehind, List.head?_append, hhead]
      rfl
    | comment hbody _ => exact .comment hbody hfirst
    | quoted hquote hbody _ => exact .quoted hquote hbody hfirst
  · have hspans := h.spans
    rw [List.flatMap_cons] at hspans ⊢
    rw [Style.spans, List.filter_cons, Style.spans, List.filter_cons]
    split
    · rw [List.cons_append]
      exact congrArg (l :: ·) hspans
    · exact hspans

theorem Parted.comma {ls first : List Lexeme} {more : List (List Lexeme)} (h : Parted ls first more) :
    Parted (.char ',' :: ls) [] (first :: more) where
  closed := List.forall_mem_cons.mpr ⟨.nil, h.closed⟩
  spans := h.spans
  front := ⟨_, rfl⟩

theorem parted_cutCommas {ls : List Lexeme} (h : Closed ls) (depth : Nat) :
    ∃ first more, cutCommas depth ls = first :: more ∧ Parted ls first more := by
  induction ls generalizing depth with
  | nil => exact ⟨[], [], rfl, by simpa using h, rfl, ⟨[], rfl⟩⟩
  | cons l ls ih =>
    have hput (depth : Nat) : ∃ first more,
        cutCommas.put l (cutCommas depth ls) = first :: more ∧ Parted (l :: ls) first more := by
      obtain ⟨first, more, heq, hparted⟩ := ih h.tail depth
      exact ⟨l :: first, more, by rw [heq]; rfl, hparted.put h⟩
    cases l with
    | char c =>
      rw [cutCommas]
      split
      · exact hput _
      · split
        · exact hput _
        · split
          · next hcomma =>
            obtain ⟨first, more, heq, hparted⟩ := ih h.tail depth
            obtain rfl : c = ',' := by simpa using (Bool.and_eq_true_iff.mp hcomma).1
            exact ⟨[], first :: more, by rw [heq], hparted.comma⟩
          · exact hput _
    | comment body => exact hput depth
    | quoted q body => exact hput depth

theorem Holds.append {front cs : List Char} {found : List Lexeme} (h : Holds cs found)
    (hfront : ∀ c ∈ front, ¬ IsQuote c ∧ c ≠ '/') : Holds (front ++ cs) found := by
  obtain ⟨ls, hclosed, rfl, rfl⟩ := h
  exact ⟨front.map .char ++ ls, hclosed.chars_append hfront, by rw [textOf_append, textOf_chars], by
    rw [spans_append, spans_chars, List.nil_append]⟩

theorem holds_join {texts : List (List Char)} {found : List (List Lexeme)}
    (h : List.Forall₂ Holds texts found) : Holds (Text.join [',', ' '] texts) found.flatten := by
  induction h with
  | nil => exact ⟨[], .nil, rfl, rfl⟩
  | @cons text spans texts found htext htexts ih =>
    cases htexts with
    | nil => simpa [Text.join] using htext
    | @cons text' spans' texts found _ _ =>
      obtain ⟨ls, hclosed, rfl, rfl⟩ := htext
      have hseparator : ∀ c ∈ [',', ' '], ¬ IsQuote c ∧ c ≠ '/' := by simp [IsQuote]
      obtain ⟨ls', hclosed', htext', hspans'⟩ := ih.append hseparator
      refine ⟨ls ++ ls', hclosed.append hclosed' (by rw [htext']; simp), ?_, ?_⟩
      · rw [textOf_append, htext', ← List.append_assoc]
        rfl
      · rw [spans_append, hspans', ← List.flatten_cons]

end Commas

section Confine

def render (attr : List Char) (cut : List (List Char × List Char) × List Char) : List Char :=
  (cut.1.flatMap fun found => found.1 ++ attr) ++ cut.2

theorem PseudoScope.plain {word : List Char} (h : PseudoScope word) :
    ∀ c ∈ word, ¬ IsQuote c ∧ c ≠ '/' := by
  rcases h with rfl | rfl <;> simp [IsQuote]

theorem pseudoScope_eq_some {cs word rest : List Char} (h : pseudoScope? cs = some (word, rest)) :
    cs = word ++ rest ∧ PseudoScope word := by
  rw [pseudoScope?, Option.orElse_eq_orElse, Option.orElse_eq_or, Option.or_eq_some_iff] at h
  dsimp only at h
  rcases h with h | ⟨-, h⟩
  · split at h
    · next hafter =>
      split at h
      · cases h
      · cases h
        exact ⟨Text.eq_append_of_after hafter, .inl rfl⟩
    · cases h
  · split at h
    · next hafter =>
      split at h
      · cases h
      · cases h
        exact ⟨Text.eq_append_of_after hafter, .inr rfl⟩
    · cases h

theorem go_pass {front rest : List Char}
    (h : ∀ before c behind, front = before ++ c :: behind → pseudoScope? (c :: (behind ++ rest)) = none)
    (fuel : Nat) (before : Char) (read : List Char) : ∃ before',
      cutPseudoScopes.go (fuel + front.length) before read (front ++ rest) =
        cutPseudoScopes.go fuel before' (front.reverse ++ read) rest := by
  induction front generalizing before read with
  | nil => exact ⟨before, rfl⟩
  | cons c front ih =>
    have hnone : (if before == ':' then none else pseudoScope? (c :: (front ++ rest))) = none := by
      rw [h [] c front rfl, ite_self]
    obtain ⟨before', hgo⟩ := ih (fun before d behind heq => h (c :: before) d behind (by rw [heq]; rfl))
      c (c :: read)
    refine ⟨before', ?_⟩
    rw [List.length_cons, ← Nat.add_assoc, List.cons_append, cutPseudoScopes.go, hnone]
    simpa using hgo

theorem pseudoScope_inert {l : Lexeme} {ls : List Lexeme} (hclosed : Closed (l :: ls))
    (hspan : l.isSpan) (hinert : l.Inert) {before behind : List Char} {c : Char}
    (h : l.text = before ++ c :: behind) (rest : List Char) :
    pseudoScope? (c :: (behind ++ rest)) = none := by
  -- The word would have to reach over the end of the lexeme, but has not its last character.
  have hlast : ∃ d, d ∈ c :: behind ∧ (IsQuote d ∨ d = '/') := by
    have hd (d : Char) (front : List Char) (hfront : l.text = front ++ [d]) :
        d ∈ c :: behind := by
      apply List.mem_of_getLast?
      rw [← List.getLast?_append_of_ne_nil before (List.cons_ne_nil c behind), ← h, hfront,
        List.getLast?_concat]
    cases hclosed with
    | char => cases hspan
    | @comment body =>
      exact ⟨'/', hd '/' ('/' :: '*' :: body ++ ['*']) (by simp [Lexeme.text]), .inr rfl⟩
    | @quoted q body _ hquote => exact ⟨q, hd q (q :: body) rfl, .inl hquote⟩
  cases hfound : pseudoScope? (c :: (behind ++ rest)) with
  | none => rfl
  | some found =>
    obtain ⟨word, tail⟩ := found
    obtain ⟨heq, hword⟩ := pseudoScope_eq_some hfound
    rw [← List.cons_append] at heq
    obtain ⟨extra, hover, -⟩ | ⟨inside, hinside, -⟩ := List.append_eq_append_iff.mp heq
    · obtain ⟨d, hd, hmark⟩ := hlast
      have := hword.plain d (hover ▸ List.mem_append_left _ hd)
      tauto
    · refine absurd ?_ (hinert hspan word hword)
      rw [h, hinside]
      exact ⟨before, inside, by simp⟩

theorem render_cons (attr text word tail : List Char) (more : List (List Char × List Char)) :
    render attr ((text, word) :: more, tail) = text ++ (attr ++ render attr (more, tail)) := by
  simp [render]

/--
What becomes of the lexemes behind what has been read is closed as well, and holds what they hold.
-/
def StaysClosed (attr : List Char) (ls : List Lexeme) (fuel : Nat) (before : Char) (read : List Char) :
    Prop :=
  ∃ ls', Closed ls' ∧ spans ls' = spans ls ∧
    ((textOf ls').head? = some '*' → (textOf ls).head? = some '*') ∧
    render attr (cutPseudoScopes.go fuel before read (textOf ls)) = read.reverse ++ textOf ls'

section StaysClosed

variable {attr read : List Char} {l : Lexeme} {ls behind : List Lexeme} {fuel fuel' : Nat}
variable {before before' c : Char} {word rest : List Char}

theorem StaysClosed.pass (h : StaysClosed attr ls fuel' before' (l.text.reverse ++ read))
    (hclosed : Closed (l :: ls)) (hgo : cutPseudoScopes.go fuel before read (l.text ++ textOf ls) =
      cutPseudoScopes.go fuel' before' (l.text.reverse ++ read) (textOf ls)) :
    StaysClosed attr (l :: ls) fuel before read := by
  obtain ⟨ls', hclosed', hspans, hhead, hrender⟩ := h
  refine ⟨l :: ls', ?_, ?_, ?_, ?_⟩
  · cases hclosed with
    | char hquote hcomment _ =>
      exact .char hquote (fun hc hstar => hcomment hc (hhead hstar)) hclosed'
    | comment hbody _ => exact .comment hbody hclosed'
    | quoted hquote hbody _ => exact .quoted hquote hbody hclosed'
  · simp only [spans, List.filter_cons] at hspans ⊢
    rw [hspans]
  · intro hstar
    rw [textOf_cons, List.head?_append_of_ne_nil _ l.text_ne_nil] at hstar ⊢
    exact hstar
  · rw [textOf_cons, hgo, hrender]
    simp

theorem StaysClosed.swap (h : StaysClosed attr behind fuel 'e' [])
    (hattr : ∀ c ∈ attr, ¬ IsQuote c ∧ c ≠ '/') (hstar : ∀ rest, (attr ++ rest).head? ≠ some '*')
    (hls : .char c :: ls = word.map .char ++ behind)
    (hfound : (if before == ':' then none else pseudoScope? (c :: textOf ls)) =
      some (word, textOf behind)) : StaysClosed attr (.char c :: ls) (fuel + 1) before read := by
  obtain ⟨ls', hclosed, hspans, -, hrender⟩ := h
  refine ⟨attr.map .char ++ ls', hclosed.chars_append hattr, ?_, ?_, ?_⟩
  · rw [hls, spans_append, spans_append, spans_chars, spans_chars, hspans]
  · rw [textOf_append, textOf_chars]
    exact fun h => absurd h (hstar _)
  · rw [textOf_cons, Lexeme.text, List.singleton_append, cutPseudoScopes.go, hfound]
    simp only [render_cons, textOf_append, textOf_chars]
    rw [hrender]
    rfl

theorem exists_go_span (hclosed : Closed (l :: ls)) (hinert : l.Inert) (hspan : l.isSpan)
    (hfuel : (textOf (l :: ls)).length ≤ fuel) (before : Char) (read : List Char) :
    ∃ fuel' before', (textOf ls).length ≤ fuel' ∧
      cutPseudoScopes.go fuel before read (l.text ++ textOf ls) =
        cutPseudoScopes.go fuel' before' (l.text.reverse ++ read) (textOf ls) := by
  rw [textOf_cons, List.length_append] at hfuel
  obtain ⟨fuel', rfl⟩ : ∃ fuel', fuel = fuel' + l.text.length :=
    ⟨fuel - l.text.length, by omega⟩
  obtain ⟨before', hgo⟩ :=
    go_pass (fun _ _ _ heq => pseudoScope_inert hclosed hspan hinert heq _) fuel' before read
  exact ⟨fuel', before', by omega, hgo⟩

theorem staysClosed (hattr : ∀ c ∈ attr, ¬ IsQuote c ∧ c ≠ '/')
    (hstar : ∀ rest, (attr ++ rest).head? ≠ some '*') (hclosed : Closed ls)
    (hinert : ∀ l ∈ ls, l.Inert) (hfuel : (textOf ls).length ≤ fuel) (before : Char)
    (read : List Char) : StaysClosed attr ls fuel before read := by
  -- A word that is replaced is several lexemes long, so the induction is on the number of them.
  induction hlength : ls.length using Nat.strong_induction_on generalizing ls fuel before read with
  | h n ih =>
    subst hlength
    cases ls with
    | nil =>
      refine ⟨[], .nil, rfl, id, ?_⟩
      cases fuel <;> simp [cutPseudoScopes.go, render, textOf]
    | cons l ls =>
      obtain ⟨hl, hls⟩ := List.forall_mem_cons.mp hinert
      have hpass {fuel' : Nat} {before' : Char} (hfuel' : (textOf ls).length ≤ fuel') :
          StaysClosed attr ls fuel' before' (l.text.reverse ++ read) :=
        ih ls.length (Nat.lt_succ_self _) hclosed.tail hls hfuel' before' _ rfl
      by_cases hspan : l.isSpan
      · obtain ⟨fuel', before', hfuel', hgo⟩ := exists_go_span hclosed hl hspan hfuel before read
        exact (hpass hfuel').pass hclosed hgo
      · cases l with
        | char c =>
          rw [textOf_cons, Lexeme.text, List.singleton_append, List.length_cons] at hfuel
          obtain ⟨fuel, rfl⟩ := Nat.exists_eq_add_one.mpr (Nat.zero_lt_of_lt hfuel)
          cases hfound : if before == ':' then none else pseudoScope? (c :: textOf ls) with
          | none =>
            have hstay : StaysClosed attr ls fuel c ((Lexeme.char c).text.reverse ++ read) :=
              hpass (Nat.le_of_succ_le_succ hfuel)
            refine hstay.pass hclosed ?_
            rw [Lexeme.text, List.singleton_append, cutPseudoScopes.go, hfound]
            rfl
          | some found =>
            obtain ⟨word, rest⟩ := found
            have hmatch : pseudoScope? (c :: textOf ls) = some (word, rest) := by
              split at hfound
              · cases hfound
              · exact hfound
            obtain ⟨heq, hword⟩ := pseudoScope_eq_some hmatch
            obtain ⟨behind, hbehind, rfl⟩ :=
              eq_chars_append hclosed hword.plain (show textOf (.char c :: ls) = word ++ rest from heq)
            have hpos : 0 < word.length := by
              rcases hword with rfl | rfl <;> decide
            have hlength : behind.length < (Lexeme.char c :: ls).length := by
              rw [hbehind, List.length_append, List.length_map]
              omega
            have hfuel : (textOf behind).length ≤ fuel := by
              rw [← List.length_cons (a := c), heq, List.length_append] at hfuel
              omega
            have hstay : StaysClosed attr behind fuel 'e' [] :=
              ih behind.length hlength (hbehind ▸ hclosed).behind
                (fun l hl => hinert l (hbehind ▸ List.mem_append_right _ hl)) hfuel 'e' [] rfl
            exact hstay.swap hattr hstar hbehind hfound
        | comment => exact absurd rfl hspan
        | quoted => exact absurd rfl hspan

end StaysClosed

/--
A text holds what it did when it is confined, if no scope pseudo-class is written in what it holds.
-/
theorem Holds.confine {attr cs : List Char} {found : List Lexeme} (h : Holds cs found)
    (hattr : ∀ c ∈ attr, ¬ IsQuote c ∧ c ≠ '/') (hstar : ∀ rest, (attr ++ rest).head? ≠ some '*')
    (hinert : ∀ l ∈ found, l.Inert) : Holds (confine attr cs) found := by
  rw [Style.confine]
  split
  · exact h
  · split
    · next hcuts =>
      have hfront : ∀ c ∈ attr ++ [' '], ¬ IsQuote c ∧ c ≠ '/' := by
        intro c hc
        rcases List.mem_append.mp hc with hc | hc
        · exact hattr c hc
        · obtain rfl := List.mem_singleton.mp hc
          simp [IsQuote]
      simpa using h.append hfront
    · next cuts tail _ hcuts =>
      obtain ⟨ls, hclosed, rfl, rfl⟩ := h
      have hall : ∀ l ∈ ls, l.Inert := by
        intro l hl
        by_cases hspan : l.isSpan
        · exact hinert l (List.mem_filter.mpr ⟨hl, hspan⟩)
        · exact fun h => absurd h hspan
      obtain ⟨ls', hclosed', hspans, -, hrender⟩ :=
        staysClosed hattr hstar hclosed hall (Nat.le_refl _) ' ' []
      refine ⟨ls', hclosed', ?_, hspans⟩
      rw [cutPseudoScopes] at hcuts
      rw [hcuts] at hrender
      exact hrender.symm

end Confine

end Polyglot.Style
