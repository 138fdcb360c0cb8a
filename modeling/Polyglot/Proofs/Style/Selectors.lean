import Polyglot.Proofs.Style.Marking
import Polyglot.Proofs.Style.Substitution
import Polyglot.Proofs.Text.Blanks

/-!
Selector lists written by the grammar: they are split into the selectors that they were made of, and
each selector is confined.
-/

namespace Polyglot.Style

theorem Balanced.append {pair : Char → Char → Prop} {inside outside : Char → Prop}
    {ls ls' : List Lexeme} (h : Balanced pair inside outside ls)
    (h' : Balanced pair inside outside ls') : Balanced pair inside outside (ls ++ ls') := by
  induction h with
  | nil => exact h'
  | char hc _ ih => exact .char hc (ih h')
  | comment _ ih => exact .comment (ih h')
  | quoted _ ih => exact .quoted (ih h')
  | group hpair hgroup _ _ ih =>
    rw [List.append_assoc, List.cons_append]
    exact .group hpair hgroup (ih h')

theorem Balanced.mono {pair : Char → Char → Prop} {inside inside' outside outside' : Char → Prop}
    {ls : List Lexeme} (h : Balanced pair inside outside ls) (hinside : ∀ c, inside c → inside' c)
    (houtside : ∀ c, outside c → outside' c) : Balanced pair inside' outside' ls := by
  induction h generalizing outside' with
  | nil => exact .nil
  | char hc _ ih => exact .char (houtside _ hc) (ih houtside)
  | comment _ ih => exact .comment (ih houtside)
  | quoted _ ih => exact .quoted (ih houtside)
  | group hpair _ _ ihgroup ih => exact .group hpair (ihgroup hinside) (ih houtside)

theorem Balanced.chars {pair : Char → Char → Prop} {inside outside : Char → Prop} {cs : List Char}
    (h : ∀ c ∈ cs, outside c) : Balanced pair inside outside (cs.map .char) := by
  induction cs with
  | nil => exact .nil
  | cons c cs ih =>
    exact .char (h c List.mem_cons_self) (ih fun d hd => h d (List.mem_cons_of_mem _ hd))

theorem textOf_chars (cs : List Char) : textOf (cs.map .char) = cs := by
  induction cs with
  | nil => rfl
  | cons c cs ih => rw [List.map_cons, textOf_cons, ih, Lexeme.text, List.singleton_append]

theorem Closed.of_mem {ls : List Lexeme} (h : Closed ls) {q : Char} {body : List Char}
    (hmem : .quoted q body ∈ ls) : IsQuote q ∧ Quotable q body := by
  induction h with
  | nil => cases hmem
  | char _ _ _ ih => exact ih (by simpa using hmem)
  | comment _ _ ih => exact ih (by simpa using hmem)
  | quoted hquote hbody _ ih =>
    rcases List.mem_cons.mp hmem with heq | hmem
    · cases heq
      exact ⟨hquote, hbody⟩
    · exact ih hmem

theorem Quotable.not_mem {q : Char} {body : List Char} (h : Quotable q body) (hbody : '\\' ∉ body) :
    q ∉ body := by
  induction h with
  | nil => exact List.not_mem_nil
  | char hquote _ _ _ ih =>
    intro hmem
    rcases List.mem_cons.mp hmem with heq | hmem
    · exact hquote heq.symm
    · exact ih (fun h => hbody (List.mem_cons_of_mem _ h)) hmem
  | escaped _ _ => exact absurd List.mem_cons_self hbody

section Split

theorem go_before (depth : Nat) (b b' : Char) (cs : List Char) :
    splitCommas.go depth none b cs = splitCommas.go depth none b' cs := by
  cases cs <;> rfl

theorem foldr_put (cs p : List Char) (ps : List (List Char)) :
    cs.foldr splitCommas.put (p :: ps) = (cs ++ p) :: ps := by
  induction cs with
  | nil => rfl
  | cons c cs ih => rw [List.foldr_cons, ih, splitCommas.put, List.cons_append]

theorem go_quoted {q : Char} {body rest : List Char} (hq : q ∉ body) (hbody : '\\' ∉ body) (depth : Nat)
    {b : Char} (hb : b ≠ '\\') : splitCommas.go depth (some q) b (body ++ q :: rest) =
      (body ++ [q]).foldr splitCommas.put (splitCommas.go depth none q rest) := by
  induction body generalizing b with
  | nil => simp [splitCommas.go, hb]
  | cons c body ih =>
    rw [List.mem_cons, not_or] at hq hbody
    have hc : ¬ (c == q && b != '\\') = true := by simp [Ne.symm hq.1]
    rw [List.cons_append, splitCommas.go, if_neg hc, ih hq.2 hbody.2 (Ne.symm hbody.1)]
    rfl

def Lexeme.Simple : Lexeme → Prop
  | char _ => True
  | comment _ => False
  | quoted q body => IsQuote q ∧ q ∉ body ∧ '\\' ∉ body

theorem Selector.simple (s : Selector) : ∀ l ∈ s.lexemes, l.Simple := by
  intro l hl
  cases l with
  | char c => trivial
  | comment body => exact s.bare body hl
  | quoted q body =>
    obtain ⟨hquote, hbody⟩ := s.closed.of_mem hl
    have hunescaped : '\\' ∉ body := by
      intro hmem
      apply s.unescaped
      apply List.mem_flatMap.mpr
      exact ⟨_, hl, by simp [Lexeme.text, hmem]⟩
    exact ⟨hquote, hbody.not_mem hunescaped, hunescaped⟩

theorem go_append {inside outside : Char → Prop} {ls : List Lexeme}
    (h : Balanced BracketPair inside outside ls) (hls : ∀ l ∈ ls, l.Simple)
    (hinside : ∀ c, inside c → IsGroupChar c) {depth : Nat}
    (houtside : ∀ c, outside c → IsGroupChar c ∧ (depth = 0 → c ≠ ',')) (b : Char) (rest : List Char) :
    splitCommas.go depth none b (textOf ls ++ rest) =
      (textOf ls).foldr splitCommas.put (splitCommas.go depth none ' ' rest) := by
  induction h generalizing depth b rest with
  | nil => exact go_before depth b ' ' rest
  | @char outside c ls hc _ ih =>
    obtain ⟨hgroup, hcomma⟩ := houtside c hc
    simp only [IsGroupChar, List.mem_cons, List.not_mem_nil, or_false, not_or] at hgroup
    obtain ⟨_, _, _, _, hround, hround', hsquare, hsquare', hdouble, hsingle⟩ := hgroup
    have hstep : splitCommas.go depth none b (c :: (textOf ls ++ rest)) =
        splitCommas.put c (splitCommas.go depth none c (textOf ls ++ rest)) := by
      simp only [splitCommas.go, beq_iff_eq, hdouble, hsingle, hround, hround', hsquare, hsquare',
        Bool.or_eq_true, Bool.and_eq_true, or_self, if_false]
      rw [if_neg fun h => hcomma h.2 h.1]
    rw [textOf_cons, List.append_assoc, Lexeme.text, List.singleton_append, hstep,
      ih (fun l hl => hls l (List.mem_cons_of_mem _ hl)) houtside]
    rfl
  | comment _ _ => exact (hls _ List.mem_cons_self).elim
  | @quoted outside q body ls _ ih =>
    obtain ⟨hquote, hq, hbody⟩ := hls _ List.mem_cons_self
    have hbackslash : q ≠ '\\' := by
      rcases hquote with rfl | rfl <;> decide
    have hstep (cs : List Char) : splitCommas.go depth none b (q :: cs) =
        splitCommas.put q (splitCommas.go depth (some q) q cs) := by
      rcases hquote with rfl | rfl <;> rfl
    have htext : (Lexeme.quoted q body).text ++ (textOf ls ++ rest) =
        q :: (body ++ q :: (textOf ls ++ rest)) := by
      simp [Lexeme.text]
    rw [textOf_cons, List.append_assoc, htext, hstep, go_quoted hq hbody depth hbackslash,
      ih (fun l hl => hls l (List.mem_cons_of_mem _ hl)) houtside]
    simp [Lexeme.text]
  | @group outside o c group ls hpair _ _ ihgroup ih =>
    have hopen (rest : List Char) : splitCommas.go depth none b (o :: rest) =
        splitCommas.put o (splitCommas.go (depth + 1) none o rest) := by
      rcases hpair with ⟨rfl, rfl⟩ | ⟨rfl, rfl⟩ <;> rfl
    have hclose (b : Char) (rest : List Char) : splitCommas.go (depth + 1) none b (c :: rest) =
        splitCommas.put c (splitCommas.go depth none c rest) := by
      rcases hpair with ⟨rfl, rfl⟩ | ⟨rfl, rfl⟩ <;> rfl
    have hgroup (b : Char) (rest : List Char) :
        splitCommas.go (depth + 1) none b (textOf group ++ rest) =
          (textOf group).foldr splitCommas.put (splitCommas.go (depth + 1) none ' ' rest) :=
      ihgroup (fun l hl => hls l (by simp [hl])) (fun c hc => ⟨hinside c hc, fun h => by cases h⟩) b
        rest
    have htext : textOf (.char o :: group ++ .char c :: ls) ++ rest =
        o :: (textOf group ++ c :: (textOf ls ++ rest)) := by
      simp [Lexeme.text]
    rw [htext, hopen, hgroup, hclose, ih (fun l hl => hls l (by simp [hl])) houtside]
    simp [Lexeme.text]

theorem isSelectorChar_of_blank {c : Char} (h : Text.isBlank c) : IsSelectorChar c := by
  have hmem : c ∉ [';', '\x7b', '\x7d', '@', '(', ')', '[', ']', '"', '\'', ','] := by
    intro hmem
    have hnone : ∀ d ∈ [';', '\x7b', '\x7d', '@', '(', ')', '[', ']', '"', '\'', ','],
        Text.isBlank d = false := by simp [Text.isBlank]
    rw [hnone c hmem] at h
    cases h
  refine ⟨fun h => hmem ?_, fun h => hmem ?_⟩
  · simp only [List.mem_cons, List.not_mem_nil, or_false] at h ⊢
    tauto
  · simp [h]

theorem balanced_blanks {inside : Char → Prop} {cs : List Char} (h : ∀ c ∈ cs, Text.isBlank c) :
    Balanced BracketPair inside IsSelectorChar (cs.map .char) :=
  .chars fun c hc => isSelectorChar_of_blank (h c hc)

theorem Selector.tight (s : Selector) : Text.Tight s.text :=
  Text.tight_of_trim s.nonempty s.trimmed

theorem go_selector (s : Selector) {left right : List Char} (hleft : ∀ c ∈ left, Text.isBlank c)
    (hright : ∀ c ∈ right, Text.isBlank c) (b : Char) (rest : List Char) :
    splitCommas.go 0 none b (left ++ s.text ++ right ++ rest) =
      (left ++ s.text ++ right).foldr splitCommas.put (splitCommas.go 0 none ' ' rest) := by
  have hbalanced : Balanced BracketPair IsGroupChar IsSelectorChar
      (left.map .char ++ s.lexemes ++ right.map .char) :=
    ((balanced_blanks hleft).append s.balanced).append (balanced_blanks hright)
  have hsimple : ∀ l ∈ left.map .char ++ s.lexemes ++ right.map .char, l.Simple := by
    intro l hl
    rw [List.mem_append, List.mem_append, List.mem_map, List.mem_map] at hl
    rcases hl with (⟨c, _, rfl⟩ | hl) | ⟨c, _, rfl⟩
    · trivial
    · exact s.simple l hl
    · trivial
  have htext : textOf (left.map .char ++ s.lexemes ++ right.map .char) = left ++ s.text ++ right := by
    rw [textOf_append, textOf_append, textOf_chars, textOf_chars, Selector.text]
  have houtside : ∀ c, IsSelectorChar c → IsGroupChar c ∧ (0 = 0 → c ≠ ',') := fun c hc =>
    ⟨hc.1, fun _ => hc.2⟩
  rw [← htext]
  exact go_append hbalanced hsimple (fun _ h => h) houtside b rest

theorem map_trim_splitCommas (s : Selector) (more : List Further) (left : List Char)
    (hleft : ∀ c ∈ left, Text.isBlank c) (b : Char) :
    (splitCommas.go 0 none b (left ++ s.text ++ more.flatMap Further.text)).map Text.trim =
      s.text :: more.map (·.selector.text) := by
  induction more generalizing left s b with
  | nil =>
    have hnil : ∀ c ∈ ([] : List Char), Text.isBlank c := fun c hc => by cases hc
    have hgo := go_selector s hleft hnil b []
    rw [List.append_nil, List.append_nil] at hgo
    have hlast : splitCommas.go 0 none ' ' [] = [[]] := rfl
    have htrim := s.tight.trim_append hleft hnil
    rw [List.append_nil] at htrim
    rw [List.flatMap_nil, List.append_nil, hgo, hlast, foldr_put, List.append_nil, List.map_singleton,
      htrim]
    rfl
  | cons f more ih =>
    have htext : left ++ s.text ++ (f :: more).flatMap Further.text =
        left ++ s.text ++ f.before.val ++
          ',' :: (f.after.val ++ f.selector.text ++ more.flatMap Further.text) := by
      simp [Further.text]
    have hcomma (cs : List Char) :
        splitCommas.go 0 none ' ' (',' :: cs) = [] :: splitCommas.go 0 none ',' cs := rfl
    rw [htext, go_selector s hleft f.before.property, hcomma, foldr_put, List.append_nil, List.map_cons,
      s.tight.trim_append hleft f.before.property, ih f.selector _ f.after.property]
    rfl

theorem Rule.tight (r : Rule) : Text.Tight r.selectorList := by
  have hmore (more : List Further) (cs : List Char) (h : Text.Tight cs) :
      Text.Tight (cs ++ more.flatMap Further.text) := by
    induction more generalizing cs with
    | nil => simpa using h
    | cons f more ih =>
      rw [List.flatMap_cons, ← List.append_assoc]
      apply ih
      have htight : Text.Tight (cs ++ (f.before.val ++ ',' :: f.after.val) ++ f.selector.text) :=
        h.append f.selector.tight
      simpa [Further.text] using htight
  exact hmore r.more _ r.first.tight

theorem splitSelectors_selectorList (r : Rule) : splitSelectors r.selectorList = r.selectors := by
  have hsplit := map_trim_splitCommas r.first r.more [] (fun c hc => by cases hc) ' '
  rw [splitSelectors, splitCommas, Rule.selectorList, ← List.nil_append r.first.text, hsplit]
  apply List.filter_eq_self.mpr
  intro cs hcs
  have hne : cs ≠ [] := by
    rcases List.mem_cons.mp hcs with rfl | hcs
    · exact r.first.nonempty
    · obtain ⟨f, _, rfl⟩ := List.mem_map.mp hcs
      exact f.selector.nonempty
  simpa using hne

end Split

section Confine

theorem scopeSelector_of_plain {attr : List Char} (h : '\\' ∉ attr) (selector : List Char) :
    scopeSelector attr selector = .ok (confine attr selector) := by
  rw [scopeSelector, confine]
  split
  · rfl
  · obtain ⟨cuts, tail⟩ := cutPseudoScopes selector
    cases cuts with
    | nil => rfl
    | cons cut cuts =>
      rw [Substitution.parse_of_literal (Substitution.literal_of_not_mem h)]
      simp only [Except.map, Substitution.spell_chars]

end Confine

end Polyglot.Style
