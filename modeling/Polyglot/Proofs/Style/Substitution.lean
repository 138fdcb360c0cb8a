import Polyglot.Proofs.Outcome
import Polyglot.Proofs.Text.Decimal
import Polyglot.Style.Substitution

/-!
Which substitution texts stand for themselves: those in which no backslash starts an escape, and no others.
An escape is longer than the character that it names, so that nothing behind it makes up for it.
-/

namespace Polyglot.Style.Substitution

/--
A character in front of which a backslash is no more than a backslash.
-/
structure Lax (c : Char) : Prop where
  letter : Text.isAsciiLetter c = false
  digit : Text.isAsciiDigit c = false
  backslash : c ≠ '\\'

/--
No backslash starts an escape.
-/
def Literal : List Char → Prop
  | [] => True
  | c :: cs => (c = '\\' → ∃ d ∈ cs.head?, Lax d) ∧ Literal cs

theorem literal_of_not_mem {cs : List Char} (h : '\\' ∉ cs) : Literal cs := by
  induction cs with
  | nil => trivial
  | cons c cs ih =>
    rw [List.mem_cons, not_or] at h
    exact ⟨fun hc => absurd hc.symm h.1, ih h.2⟩

/--
A backslash at the end of a text starts an escape if the text goes on with a letter, say.
-/
theorem literal_append_cons {c : Char} (hc : ¬ Lax c) (cs ds : List Char) :
    Literal (cs ++ c :: ds) ↔ Literal cs ∧ Literal (c :: ds) := by
  induction cs with
  | nil => exact (and_iff_right trivial).symm
  | cons b cs ih =>
    have hnext : (∃ d ∈ (cs ++ c :: ds).head?, Lax d) ↔ ∃ d ∈ cs.head?, Lax d := by
      cases cs with
      | nil => simpa using hc
      | cons d cs => rfl
    rw [List.cons_append, Literal, Literal, ih, hnext, and_assoc]

section Spelling

theorem namedChar_of_lax {c : Char} (h : Lax c) : namedChar? c = none := by
  rw [namedChar?.eq_def]
  split <;> first | rfl | exact absurd h.letter (by decide) | exact absurd rfl h.backslash

theorem parts_of_literal (text : List Char) {fuel place : Nat} {cs : List Char} (hcs : Literal cs)
    (hfuel : cs.length < fuel) : parts text fuel place cs = .ok (cs.map .char) := by
  induction fuel generalizing place cs with
  | zero => omega
  | succ fuel ih =>
    cases cs with
    | nil => rfl
    | cons c cs =>
      obtain ⟨hback, hcs⟩ := hcs
      rw [List.length_cons] at hfuel
      by_cases hc : c = '\\'
      · obtain ⟨d, hd, hlax⟩ := hback hc
        obtain ⟨cs, rfl⟩ := List.head?_eq_some_iff.mp hd
        rw [List.length_cons] at hfuel
        have hstep : parts text (fuel + 1) place (c :: d :: cs) =
            (parts text fuel (place + 2) cs).map ([.char '\\', .char d] ++ ·) := by
          have hg : d ≠ 'g' := by
            rintro rfl
            exact absurd hlax.letter (by decide)
          have hzero : d ≠ '0' := by
            rintro rfl
            exact absurd hlax.digit (by decide)
          rw [hc, parts.eq_def]
          simp [hg, hlax.letter, hlax.digit, namedChar_of_lax hlax]
        rw [hstep, ih hcs.2 (by omega), hc]
        rfl
      · have hstep : parts text (fuel + 1) place (c :: cs) =
            (parts text fuel (place + 1) cs).map ([.char c] ++ ·) := by
          simp [parts, hc]
        rw [hstep, ih hcs (by omega)]
        rfl

theorem parse_of_literal {cs : List Char} (h : Literal cs) :
    parse cs = .ok (cs.map .char) :=
  parts_of_literal cs h (Nat.lt_succ_self _)

theorem spell_chars (found cs : List Char) : spell found (cs.map .char) = cs := by
  induction cs with
  | nil => rfl
  | cons c cs ih =>
    rw [spell] at ih
    rw [List.map_cons, spell, List.flatMap_cons, ih, List.singleton_append]

end Spelling

section Reading

/--
What the front of a substitution text may be read as. The escapes for the whole match are the longest.
-/
inductive Reads : List Char → List Part → Prop where
  | char {c : Char} (hc : c ≠ '\\') : Reads [c] [.char c]
  | kept {c : Char} (hc : Lax c) : Reads ['\\', c] [.char '\\', .char c]
  | escape {raw : List Char} (hraw : 2 ≤ raw.length) (c : Char) : Reads raw [.char c]
  | whole {raw : List Char} (hfirst : raw.head? = some '\\') (hraw : 5 ≤ raw.length) :
      Reads raw [.whole]

theorem Reads.length_pos {raw : List Char} {read : List Part} (h : Reads raw read) : 0 < raw.length := by
  cases h with
  | char _ => exact Nat.zero_lt_one
  | kept _ => exact Nat.zero_lt_two
  | escape hraw _ => omega
  | whole _ hraw => omega

theorem group_eq_ok {text : List Char} {place n : Nat} {p : Part} (h : group text place n = .ok p) :
    n = 0 ∧ p = .whole := by
  rw [group] at h
  split at h
  · next hn =>
    cases h
    exact ⟨hn, rfl⟩
  · cases h

theorem namedGroup_eq_ok {text cs left : List Char} {place : Nat} {p : Part}
    (h : namedGroup text place cs = .ok (p, left)) : p = .whole ∧ left.length + 2 ≤ cs.length := by
  rw [namedGroup] at h
  dsimp only at h
  split at h
  · cases h
  · next _ rest hdrop =>
    have hlength := congrArg List.length (List.takeWhile_append_dropWhile (p := (· != '>')) (l := cs))
    rw [hdrop, List.length_append, List.length_cons] at hlength
    split at h
    · cases h
    · next hname =>
      have hpos : 0 < (cs.takeWhile (· != '>')).length := by
        rw [List.length_pos_iff]
        simpa using hname
      split at h
      · obtain ⟨q, hq, heq⟩ := map_eq_ok.mp h
        cases heq
        exact ⟨(group_eq_ok hq).2, by omega⟩
      · split at h <;> cases h

theorem ofDecimals_pos {c : Char} {ds : List Char} (hc : c ≠ '0')
    (h : ∀ d ∈ c :: ds, Text.isAsciiDigit d) : 0 < Text.ofDecimals (c :: ds) := by
  obtain ⟨hdigit, hds⟩ := List.forall_mem_cons.mp h
  have hone : ∀ d ∈ [c], Text.isAsciiDigit d := List.forall_mem_singleton.mpr hdigit
  have hvalue : Text.ofDecimals [c] = c.toNat - 48 := by
    rw [Text.ofDecimals, List.foldl_cons, List.foldl_nil, Text.decimalValue_of_isAsciiDigit hdigit]
    simp
  have hbounds := Text.toNat_of_isAsciiDigit hdigit
  have hzero : c.toNat ≠ 48 := fun heq => hc (Char.toNat_inj.mp heq)
  rw [← List.singleton_append, Text.ofDecimals_append hone hds, hvalue]
  exact Nat.add_pos_left (Nat.mul_pos (by omega) (Nat.pow_pos (by decide))) _

theorem reads_of_parts {text cs : List Char} {fuel place : Nat} {ps : List Part} (hne : cs ≠ [])
    (h : parts text (fuel + 1) place cs = .ok ps) : ∃ raw rest read more place',
      cs = raw ++ rest ∧ Reads raw read ∧ parts text fuel place' rest = .ok more ∧
        ps = read ++ more := by
  have hstep (used : Nat) {read : List Part} (hreads : Reads (cs.take used) read)
      (h : (parts text fuel (place + used) (cs.drop used)).map (read ++ ·) = .ok ps) :
      ∃ raw rest read more place', cs = raw ++ rest ∧ Reads raw read ∧
        parts text fuel place' rest = .ok more ∧ ps = read ++ more := by
    obtain ⟨more, hmore, rfl⟩ := map_eq_ok.mp h
    exact ⟨_, _, _, _, _, (List.take_append_drop used cs).symm, hreads, hmore, rfl⟩
  rw [parts.eq_def] at h
  dsimp only at h
  split at h
  · exact absurd rfl hne
  · cases h
  · next rest =>
    split at h
    · cases h
    · next p left hgroup =>
      obtain ⟨rfl, hlength⟩ := namedGroup_eq_ok hgroup
      refine hstep _ (.whole ?_ ?_) h
      · rw [List.head?_take, if_neg (by simp only [List.length_cons]; omega)]
        rfl
      · simp only [List.length_take, List.length_cons]
        omega
  · cases h
  · next rest =>
    refine hstep _ (.escape ?_ _) h
    simp only [List.length_take, List.length_cons]
    omega
  · next c rest _ _ hzero =>
    split at h
    · next hdigit =>
      split at h
      · split at h
        · cases h
        · exact hstep 4 (.escape (by simp) _) h
      · split at h
        · cases h
        · next p hgroup =>
          -- The only group is the whole match, which is numbered zero.
          have hds : ∀ d ∈ c :: (rest.take 1).takeWhile Text.isAsciiDigit, Text.isAsciiDigit d :=
            List.forall_mem_cons.mpr ⟨hdigit, List.all_eq_true.mp List.all_takeWhile⟩
          have hpos := ofDecimals_pos hzero hds
          exact absurd (group_eq_ok hgroup).1 (by omega)
    · next hdigit =>
      split at h
      · exact hstep 2 (.escape (by simp) _) h
      · next hnone =>
        split at h
        · cases h
        · next hletter =>
          refine hstep 2 (.kept ⟨by simpa using hletter, by simpa using hdigit, ?_⟩) h
          rintro rfl
          cases hnone
  · next c rest hend _ _ _ hmore =>
    refine hstep 1 (.char ?_) h
    rintro rfl
    cases rest with
    | nil => exact hend rfl rfl
    | cons d rest => exact hmore d rest rfl rfl

variable {text word cs : List Char} {fuel place : Nat} {ps : List Part}

theorem spell_append (word : List Char) (ps qs : List Part) :
    spell word (ps ++ qs) = spell word ps ++ spell word qs :=
  List.flatMap_append

theorem spell_whole (word : List Char) : spell word [.whole] = word := by
  simp [spell]

theorem length_spell (hword : word.length ≤ 5) (h : parts text fuel place cs = .ok ps)
    (hfuel : cs.length < fuel) : (spell word ps).length ≤ cs.length := by
  induction fuel generalizing place cs ps with
  | zero => omega
  | succ fuel ih =>
    by_cases hne : cs = []
    · subst hne
      cases h
      exact Nat.le_refl _
    · obtain ⟨raw, rest, read, more, place', rfl, hreads, hmore, rfl⟩ := reads_of_parts hne h
      have hread : (spell word read).length ≤ raw.length := by
        cases hreads with
        | char _ => exact Nat.le_refl _
        | kept _ => exact Nat.le_refl _
        | escape hraw c => exact Nat.le_of_lt hraw
        | whole _ hraw =>
          rw [spell_whole]
          exact Nat.le_trans hword hraw
      have hpos := hreads.length_pos
      rw [List.length_append] at hfuel
      have hrest := ih hmore (by omega)
      rw [spell_append, List.length_append, List.length_append]
      omega

theorem literal_of_spell (hword : word.length ≤ 5) (hfirst : ∃ c ∈ word.head?, c ≠ '\\')
    (h : parts text fuel place cs = .ok ps) (hfuel : cs.length < fuel)
    (hspell : spell word ps = cs) : Literal cs := by
  induction fuel generalizing place cs ps with
  | zero => omega
  | succ fuel ih =>
    by_cases hne : cs = []
    · subst hne
      trivial
    · obtain ⟨raw, rest, read, more, place', rfl, hreads, hmore, rfl⟩ := reads_of_parts hne h
      have hpos := hreads.length_pos
      rw [List.length_append] at hfuel
      have hshort : rest.length < fuel := by omega
      rw [spell_append] at hspell
      cases hreads with
      | @char c hc =>
        have hrest : spell word more = rest := (List.cons.inj hspell).2
        exact ⟨fun heq => absurd heq hc, ih hmore hshort hrest⟩
      | @kept c hc =>
        have hrest : spell word more = rest := (List.cons.inj (List.cons.inj hspell).2).2
        exact ⟨fun _ => ⟨c, rfl, hc⟩, fun heq => absurd heq hc.backslash,
          ih hmore hshort hrest⟩
      | escape hraw c =>
        have hmost := length_spell hword hmore hshort
        have hlength := congrArg List.length hspell
        have hone : (spell word [.char c]).length = 1 := rfl
        rw [List.length_append, List.length_append, hone] at hlength
        omega
      | whole hback _ =>
        obtain ⟨c, hc, hne⟩ := hfirst
        have hhead := congrArg List.head? hspell
        rw [spell_whole, List.head?_append, List.head?_append, hback, hc] at hhead
        exact absurd (Option.some.inj hhead) hne

/--
A text stands for itself if and only if it holds no escape, as every short match shows.
-/
theorem parse_spells_iff (hword : word.length ≤ 5) (hfirst : ∃ c ∈ word.head?, c ≠ '\\') :
    (∃ ps, parse cs = .ok ps ∧ spell word ps = cs) ↔ Literal cs := by
  constructor
  · rintro ⟨ps, hparse, hspell⟩
    exact literal_of_spell hword hfirst hparse (Nat.lt_succ_self _) hspell
  · exact fun h => ⟨_, parse_of_literal h, spell_chars word cs⟩

end Reading

end Polyglot.Style.Substitution
