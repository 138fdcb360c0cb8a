import Polyglot.Proofs.Component.Written

/-!
What the scanners find in a text they find as well when there is more behind the text: none of them
looks beyond the sign that ends a tag.
-/

namespace Polyglot

theorem takeWhile_append_of_mem {α : Type} {p : α → Bool} {a : α} {as : List α} (h : a ∈ as)
    (ha : ¬ p a) (more : List α) : (as ++ more).takeWhile p = as.takeWhile p := by
  induction as with
  | nil => cases h
  | cons b as ih =>
    rw [List.cons_append, List.takeWhile_cons, List.takeWhile_cons]
    split
    · next hb =>
      have hmem : a ∈ as := by
        rcases List.mem_cons.mp h with rfl | h
        · exact absurd hb ha
        · exact h
      rw [ih hmem]
    · rfl

theorem dropWhile_append_of_mem {α : Type} {p : α → Bool} {a : α} {as : List α} (h : a ∈ as)
    (ha : ¬ p a) (more : List α) :
    (as ++ more).dropWhile p = as.dropWhile p ++ more ∧ a ∈ as.dropWhile p := by
  induction as with
  | nil => cases h
  | cons b as ih =>
    rw [List.cons_append, List.dropWhile_cons, List.dropWhile_cons]
    split
    · next hb =>
      refine ih ?_
      rcases List.mem_cons.mp h with rfl | h
      · exact absurd hb ha
      · exact h
    · exact ⟨rfl, h⟩

namespace Text

theorem after_append_of_length {part cs : List Char} (h : part.length ≤ cs.length) (more : List Char) :
    after? part (cs ++ more) = (after? part cs).map (· ++ more) := by
  induction part generalizing cs with
  | nil => rfl
  | cons p part ih =>
    cases cs with
    | nil => cases h
    | cons c cs =>
      rw [List.cons_append, after?, after?]
      split
      · exact ih (Nat.le_of_succ_le_succ h)
      · rfl

theorem cut_append {part cs before rest : List Char} (h : cut? part cs = some (before, rest))
    (more : List Char) : cut? part (cs ++ more) = some (before, rest ++ more) := by
  have hlength (cs before : List Char) (h : cut? part cs = some (before, rest)) :
      part.length ≤ cs.length := by
    rw [eq_append_of_cut h]
    simp only [List.length_append]
    omega
  induction cs generalizing before with
  | nil =>
    cases part with
    | nil =>
      cases h
      cases more <;> rfl
    | cons p part => cases h
  | cons c cs ih =>
    have hle := hlength _ _ h
    have hafter := after_append_of_length hle more
    rw [cut?] at h
    rw [List.cons_append, cut?, ← List.cons_append, hafter]
    split at h
    · next hfound =>
      cases h
      rw [hfound]
      rfl
    · next hnone =>
      obtain ⟨⟨before', rest'⟩, hcut, heq⟩ := Option.map_eq_some_iff.mp h
      cases heq
      rw [hnone, Option.map_none, ih hcut]
      rfl

end Text

namespace Component

variable {name cs rest : List Char}

theorem takeTagName_more (h : '>' ∈ cs) (more : List Char) :
    takeTagName? (cs ++ more) = (takeTagName? cs).map (fun p => (p.1, p.2 ++ more)) ∧
      ∀ p, takeTagName? cs = some p → '>' ∈ p.2 := by
  cases cs with
  | nil => cases h
  | cons c cs =>
    rw [List.cons_append, takeTagName?, takeTagName?]
    split
    · next hc =>
      have hmem : '>' ∈ cs := by
        rcases List.mem_cons.mp h with rfl | h
        · exact absurd hc (by decide)
        · exact h
      obtain ⟨hdrop, hrest⟩ := dropWhile_append_of_mem (p := isTagChar) hmem (by decide) more
      refine ⟨?_, ?_⟩
      · rw [takeWhile_append_of_mem hmem (by decide), hdrop]
        rfl
      · rintro _ ⟨⟩
        exact hrest
    · exact ⟨rfl, fun _ hnone => by cases hnone⟩

theorem takeTagEnd_sign {attrs : List Char} (h : '>' ∉ attrs) (rest : List Char) :
    takeTagEnd? (attrs ++ '>' :: rest) =
      if attrs.head?.all Text.isBlank then some (attrs, rest) else none := by
  split
  · next hblank =>
    refine takeTagEnd_eq_some.mpr ⟨rfl, h, fun c hc => ?_⟩
    rw [Option.mem_def] at hc
    rwa [hc] at hblank
  · next hblank =>
    cases attrs with
    | nil => exact absurd rfl hblank
    | cons c attrs =>
      have hc : ¬ '>' = c := fun hc => h (by rw [hc]; exact List.mem_cons_self)
      have hblank : ¬ Text.isBlank c = true := hblank
      rw [takeTagEnd?.eq_def]
      simp [Ne.symm hc, hblank]

theorem takeTagEnd_more (h : '>' ∈ cs) (more : List Char) :
    takeTagEnd? (cs ++ more) = (takeTagEnd? cs).map fun p => (p.1, p.2 ++ more) := by
  obtain ⟨attrs, rest, rfl, hattrs⟩ := List.eq_append_cons_of_mem h
  rw [List.append_assoc, List.cons_append, takeTagEnd_sign hattrs, takeTagEnd_sign hattrs]
  split <;> rfl

theorem openTagHere_more (h : '>' ∈ cs) (more : List Char) :
    openTagHere? (cs ++ more) =
      (openTagHere? cs).map fun t => { t with rest := t.rest ++ more } := by
  cases cs with
  | nil => cases h
  | cons c cs =>
    by_cases hc : c = '<'
    · subst hc
      have hmem : '>' ∈ cs := by simpa using h
      obtain ⟨hname, hrest⟩ := takeTagName_more hmem more
      rw [List.cons_append, openTagHere?, openTagHere?, hname]
      cases hfound : takeTagName? cs with
      | none => rfl
      | some found =>
        obtain ⟨tag, rest⟩ := found
        simp only [Option.map_some, takeTagEnd_more (hrest _ hfound), Option.map_map]
        rfl
    · rw [List.cons_append, openTagHere_of_ne hc, openTagHere_of_ne hc]
      rfl

theorem mem_of_openTagHere {t : OpenTag} (h : openTagHere? cs = some t) : '>' ∈ cs := by
  obtain ⟨rfl, -⟩ := openTagHere_eq_some.mp h
  simp

theorem findOpenTag_more {before : List Char} {t : OpenTag}
    (h : findOpenTag? cs = some (before, t)) (more : List Char) :
    findOpenTag? (cs ++ more) = some (before, { t with rest := t.rest ++ more }) := by
  have hmem (cs before : List Char) (h : findOpenTag? cs = some (before, t)) : '>' ∈ cs := by
    obtain ⟨behind, rfl, hhere⟩ := openTagHere_of_findOpenTag h
    exact List.mem_append_right before (mem_of_openTagHere hhere)
  induction cs generalizing before with
  | nil => cases h
  | cons c cs ih =>
    have hhere := openTagHere_more (hmem _ _ h) more
    rw [findOpenTag?] at h
    rw [List.cons_append, findOpenTag?, ← List.cons_append, hhere]
    split at h
    · next hfound =>
      cases h
      rw [hfound]
      rfl
    · next hnone =>
      obtain ⟨⟨before', t'⟩, hfind, heq⟩ := Option.map_eq_some_iff.mp h
      cases heq
      rw [hnone, Option.map_none, ih hfind]
      rfl

def Unended (name : List Char) : Prop :=
  ∀ n ∈ name, Text.sameLetter n '>' = false

theorem unended_of_isTagName (h : IsTagName name) : Unended name := fun _ hn =>
  sameLetter_of_isTagChar (isTagChar_of_mem h hn) '>' (by simp)

theorem afterName_more (hname : Unended name) (h : '>' ∈ cs) (more : List Char) :
    afterName? name (cs ++ more) = (afterName? name cs).map (· ++ more) ∧
      ∀ rest, afterName? name cs = some rest → '>' ∈ rest := by
  induction name generalizing cs with
  | nil =>
    refine ⟨rfl, ?_⟩
    rintro _ ⟨⟩
    exact h
  | cons n name ih =>
    obtain ⟨hn, hname⟩ := List.forall_mem_cons.mp hname
    cases cs with
    | nil => cases h
    | cons c cs =>
      rw [List.cons_append, afterName?, afterName?]
      split
      · next hsame =>
        refine ih hname ?_
        rcases List.mem_cons.mp h with rfl | h
        · rw [hn] at hsame
          cases hsame
        · exact h
      · exact ⟨rfl, fun _ hnone => by cases hnone⟩

theorem closeTagHere_more (hname : Unended name) (h : '>' ∈ cs) (more : List Char) :
    closeTagHere? name (cs ++ more) = (closeTagHere? name cs).map (· ++ more) := by
  by_cases hshape : ∃ text, cs = '<' :: '/' :: text
  · obtain ⟨text, rfl⟩ := hshape
    have hmem : '>' ∈ text := by simpa using h
    obtain ⟨hafter, hrest⟩ := afterName_more hname hmem more
    rw [List.cons_append, List.cons_append, closeTagHere?, closeTagHere?, hafter]
    cases hfound : afterName? name text with
    | none => rfl
    | some after =>
      obtain ⟨htrim, hmem⟩ :=
        dropWhile_append_of_mem (p := Text.isBlank) (hrest _ hfound) (by decide) more
      simp only [Option.map_some, Text.trimLeft, htrim]
      obtain ⟨c, behind, hc⟩ := List.exists_cons_of_ne_nil (List.ne_nil_of_mem hmem)
      rw [hc]
      by_cases heq : c = '>'
      · subst heq
        rfl
      · simp [heq]
  · have hnone (text : List Char) (htext : ∀ rest, text ≠ '<' :: '/' :: rest) :
        closeTagHere? name text = none := by
      rw [closeTagHere?.eq_def]
      split
      · exact absurd rfl (htext _)
      · rfl
    rw [hnone cs fun rest hcs => hshape ⟨rest, hcs⟩, hnone (cs ++ more)]
    · rfl
    · -- The sign is the third character at the earliest, so that the first two are not from behind.
      intro rest hcs
      rcases cs with - | ⟨c, - | ⟨d, cs⟩⟩
      · cases h
      · simp only [List.singleton_append, List.cons.injEq] at hcs
        rw [hcs.1] at h
        simp at h
      · simp only [List.cons_append, List.cons.injEq] at hcs
        exact hshape ⟨cs, by rw [hcs.1, hcs.2.1]⟩

theorem sameTagHere_more (hname : Unended name) (h : '>' ∈ cs) (more : List Char) :
    sameTagHere? name (cs ++ more) =
      (sameTagHere? name cs).map fun p => (p.1, p.2 ++ more) := by
  cases cs with
  | nil => cases h
  | cons c cs =>
    by_cases hc : c = '<'
    · subst hc
      have hmem : '>' ∈ cs := by simpa using h
      obtain ⟨hafter, hrest⟩ := afterName_more hname hmem more
      rw [List.cons_append, sameTagHere?, sameTagHere?, hafter]
      cases hfound : afterName? name cs with
      | none => rfl
      | some after => exact takeTagEnd_more (hrest _ hfound) more
    · have hnone (text : List Char) : sameTagHere? name (c :: text) = none := by
        rw [sameTagHere?.eq_def]
        split
        · next heq => exact absurd (List.cons.inj heq).1 hc
        · rfl
      rw [List.cons_append, hnone, hnone]
      rfl

section Closing

variable {content : List Char}

theorem findRawClose_more (hname : Unmarked name) (hend : Unended name)
    (h : findRawClose? name cs = some (content, rest)) (more : List Char) :
    '>' ∈ cs ∧ findRawClose? name (cs ++ more) = some (content, rest ++ more) := by
  induction cs generalizing content with
  | nil => cases h
  | cons c cs ih =>
    rw [findRawClose?] at h
    split at h
    · next hclose =>
      cases h
      obtain ⟨tag, htext, -, hsign, -⟩ := closeTagHere_consumes hname hclose
      have hmem : '>' ∈ c :: cs := by
        rw [htext]
        simp [hsign]
      have hmore := closeTagHere_more hend hmem more
      rw [hclose, List.cons_append] at hmore
      exact ⟨hmem, by rw [List.cons_append, findRawClose?, hmore]; rfl⟩
    · next hnone =>
      obtain ⟨⟨before, rest'⟩, hfind, heq⟩ := Option.map_eq_some_iff.mp h
      cases heq
      obtain ⟨hmem, hfound⟩ := ih hfind
      have hmem := List.mem_cons_of_mem c hmem
      have hmore := closeTagHere_more hend hmem more
      rw [hnone, List.cons_append] at hmore
      refine ⟨hmem, ?_⟩
      rw [List.cons_append, findRawClose?, hmore, hfound]
      rfl

theorem findNestedClose_more (hname : Unmarked name) (hend : Unended name) {fuel depth : Nat}
    (h : findNestedClose? name fuel depth cs = some (content, rest)) (more : List Char) :
    '>' ∈ cs ∧ ∀ fuel' ≥ fuel,
      findNestedClose? name fuel' depth (cs ++ more) = some (content, rest ++ more) := by
  induction fuel generalizing depth cs content with
  | zero => cases h
  | succ fuel ih =>
    cases cs with
    | nil => cases h
    | cons c cs =>
      cases hsame : sameTagHere? name (c :: cs) with
      | some found =>
        obtain ⟨attrs, behind⟩ := found
        obtain ⟨tag, htext, htag⟩ := sameTagHere_consumes hname hsame
        rw [htext] at h ⊢
        rw [findNestedClose_open fuel depth (htag behind), Option.map_eq_some_iff] at h
        obtain ⟨⟨before, rest'⟩, hfind, heq⟩ := h
        cases heq
        obtain ⟨hmem, hfound⟩ := ih hfind
        refine ⟨List.mem_append_right _ hmem, fun fuel' hle => ?_⟩
        obtain ⟨fuel', rfl⟩ := Nat.exists_eq_add_one.mpr (Nat.zero_lt_of_lt hle)
        rw [List.append_assoc, findNestedClose_open fuel' depth (htag _),
          hfound fuel' (Nat.le_of_succ_le_succ hle)]
        rfl
      | none =>
        cases hclose : closeTagHere? name (c :: cs) with
        | some behind =>
          obtain ⟨tag, htext, -, hsign, htag⟩ := closeTagHere_consumes hname hclose
          rw [htext] at h ⊢
          rw [findNestedClose_close hname fuel depth (htag behind)] at h
          refine ⟨by simp [hsign], fun fuel' hle => ?_⟩
          obtain ⟨fuel', rfl⟩ := Nat.exists_eq_add_one.mpr (Nat.zero_lt_of_lt hle)
          rw [List.append_assoc, findNestedClose_close hname fuel' depth (htag _)]
          split at h
          · next hdepth =>
            cases h
            rw [if_pos hdepth]
          · next hdepth =>
            obtain ⟨⟨before, rest'⟩, hfind, heq⟩ := Option.map_eq_some_iff.mp h
            cases heq
            rw [if_neg hdepth, (ih hfind).2 fuel' (Nat.le_of_succ_le_succ hle)]
            rfl
        | none =>
          rw [findNestedClose_char fuel depth hsame hclose, Option.map_eq_some_iff] at h
          obtain ⟨⟨before, rest'⟩, hfind, heq⟩ := h
          cases heq
          obtain ⟨hmem, hfound⟩ := ih hfind
          have hmem := List.mem_cons_of_mem c hmem
          have hsame' := sameTagHere_more hend hmem more
          have hclose' := closeTagHere_more hend hmem more
          rw [hsame, List.cons_append] at hsame'
          rw [hclose, List.cons_append] at hclose'
          refine ⟨hmem, fun fuel' hle => ?_⟩
          obtain ⟨fuel', rfl⟩ := Nat.exists_eq_add_one.mpr (Nat.zero_lt_of_lt hle)
          rw [List.cons_append, findNestedClose_char fuel' depth hsame' hclose',
            hfound fuel' (Nat.le_of_succ_le_succ hle)]
          rfl

theorem findClose_more (hname : IsTagName name) (h : findClose? name cs = some (content, rest))
    (more : List Char) : findClose? name (cs ++ more) = some (content, rest ++ more) := by
  have hunmarked := unmarked_of_isTagName hname
  have hunended := unended_of_isTagName hname
  rw [findClose?] at h ⊢
  split at h
  · next hraw =>
    rw [if_pos hraw]
    exact (findRawClose_more hunmarked hunended h more).2
  · next hraw =>
    rw [if_neg hraw]
    refine (findNestedClose_more hunmarked hunended h more).2 _ ?_
    simp

end Closing

end Component

end Polyglot
