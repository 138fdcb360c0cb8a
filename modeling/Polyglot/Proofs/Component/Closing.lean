import Mathlib.Data.List.TakeWhile
import Polyglot.Component.Reader
import Polyglot.Proofs.Text.Blanks
import Polyglot.Proofs.Text.Search

/-!
Closing tags: a content that the search for one has cut out of a text is cut out of every text where
a closing tag follows it.

The search could only go wrong at a tag that begins inside the content and reaches over its end. A
closing tag cannot, and an opening tag that does so did so in the first text.
-/

namespace Polyglot.Component

def Unmarked (name : List Char) : Prop :=
  ∀ n ∈ name, Text.sameLetter n '<' = false ∧ Text.sameLetter n '/' = false

def closing (name : List Char) : List Char :=
  '<' :: '/' :: (name ++ ['>'])

section Tags

variable {name cs rest : List Char}

theorem afterName_self (more : List Char) : afterName? name (name ++ more) = some more := by
  induction name with
  | nil => rfl
  | cons n name ih => simp [afterName?, Text.sameLetter, ih]

theorem afterName_congr {other : List Char}
    (h : name.map Text.lowerChar = other.map Text.lowerChar) :
    afterName? name cs = afterName? other cs := by
  induction name generalizing other cs with
  | nil =>
    rw [List.map_nil, eq_comm, List.map_eq_nil_iff] at h
    rw [h]
  | cons n name ih =>
    cases other with
    | nil => cases h
    | cons m other =>
      obtain ⟨hn, hname⟩ := List.cons.inj h
      cases cs with
      | nil => rfl
      | cons c cs =>
        have hsame : Text.sameLetter n c = Text.sameLetter m c := by simp only [Text.sameLetter, hn]
        simp only [afterName?, hsame, ih hname]

/--
What is taken for a name holds no beginning of a tag, and is taken for it before any text.
-/
theorem afterName_consumes (hname : Unmarked name) (h : afterName? name cs = some rest) :
    ∃ head, cs = head ++ rest ∧ '<' ∉ head ∧
      ∀ more, afterName? name (head ++ more) = some more := by
  induction name generalizing cs with
  | nil =>
    cases h
    exact ⟨[], rfl, List.not_mem_nil, fun _ => rfl⟩
  | cons n name ih =>
    obtain ⟨hn, hname⟩ := List.forall_mem_cons.mp hname
    cases cs with
    | nil => cases h
    | cons c cs =>
      rw [afterName?] at h
      split at h
      · next hsame =>
        obtain ⟨head, rfl, hmark, hhead⟩ := ih hname h
        refine ⟨c :: head, rfl, ?_, fun more => by simp [afterName?, hsame, hhead]⟩
        rintro (_ | ⟨_, hmem⟩)
        · rw [hn.1] at hsame
          cases hsame
        · exact hmark hmem
      · cases h

theorem afterName_append (hname : Unmarked name) (before more : List Char) :
    afterName? name (before ++ '<' :: more) =
      (afterName? name before).map (· ++ '<' :: more) := by
  induction name generalizing before with
  | nil => rfl
  | cons n name ih =>
    obtain ⟨hn, hname⟩ := List.forall_mem_cons.mp hname
    cases before with
    | nil => simp [afterName?, hn.1]
    | cons c before =>
      simp only [List.cons_append, afterName?]
      split
      · exact ih hname before
      · rfl

theorem closeTagHere_eq_some :
    closeTagHere? name cs = some rest ↔ ∃ text after, cs = '<' :: '/' :: text ∧
      afterName? name text = some after ∧ Text.trimLeft after = '>' :: rest := by
  rw [closeTagHere?.eq_def]
  split
  · next text =>
    cases hafter : afterName? name text with
    | none => simp_all
    | some after =>
      simp only [Option.map_some, List.cons.injEq, true_and, exists_and_left, exists_eq_left']
      cases htrim : Text.trimLeft after with
      | nil => simp_all
      | cons c text =>
        by_cases hc : c = '>' <;> simp_all
  · next hshape =>
    simp only [reduceCtorEq, false_iff, not_exists]
    rintro text _ ⟨rfl, _⟩
    exact hshape text rfl

theorem closeTagHere_closing (name more : List Char) :
    closeTagHere? name (closing name ++ more) = some more := by
  rw [closeTagHere_eq_some]
  refine ⟨name ++ '>' :: more, '>' :: more, by simp [closing], afterName_self _, ?_⟩
  rw [Text.trimLeft, List.dropWhile_cons_of_neg (by decide)]

theorem closeTagHere_consumes (hname : Unmarked name) (h : closeTagHere? name cs = some rest) :
    ∃ tag, cs = '<' :: '/' :: tag ++ rest ∧ '<' ∉ tag ∧ '>' ∈ tag ∧
      ∀ more, closeTagHere? name ('<' :: '/' :: tag ++ more) = some more := by
  obtain ⟨text, after, rfl, hafter, htrim⟩ := closeTagHere_eq_some.mp h
  obtain ⟨head, rfl, hmark, hhead⟩ := afterName_consumes hname hafter
  have hsplit : after.takeWhile Text.isBlank ++ '>' :: rest = after := by
    rw [← htrim]
    exact List.takeWhile_append_dropWhile
  refine ⟨head ++ after.takeWhile Text.isBlank ++ ['>'], ?_, ?_, ?_, ?_⟩
  · simp [hsplit]
  · have hblank : '<' ∉ after.takeWhile Text.isBlank := fun hmem =>
      absurd (List.mem_takeWhile_imp hmem) (by decide)
    simp [hmark, hblank]
  · simp
  · intro more
    rw [closeTagHere_eq_some]
    refine ⟨_, after.takeWhile Text.isBlank ++ '>' :: more, by simp, hhead _, ?_⟩
    exact Text.trimLeft_blanks_cons (fun c hc => List.mem_takeWhile_imp hc) (by decide) more

theorem closeTagHere_append_consumes (hname : Unmarked name) {c : Char} {before more : List Char}
    (h : closeTagHere? name (c :: before ++ '<' :: more) = some rest) :
    ∃ tag inside, c :: before = '<' :: '/' :: tag ++ inside ∧
      ∀ more, closeTagHere? name ('<' :: '/' :: tag ++ more) = some more := by
  obtain ⟨tag, hcs, hmark, -, htag⟩ := closeTagHere_consumes hname h
  simp only [List.cons_append, List.cons.injEq] at hcs
  obtain ⟨rfl, hcs⟩ := hcs
  rw [← List.cons_append] at hcs
  have hmark : '<' ∉ '/' :: tag := by simp [hmark]
  have hinside : ∃ inside, before = '/' :: tag ++ inside := by
    obtain ⟨extra, hbefore, hover⟩ | ⟨inside, hbefore, -⟩ := List.append_eq_append_iff.mp hcs
    · cases extra with
      | nil => exact ⟨[], by simpa using hbefore.symm⟩
      | cons d extra =>
        obtain ⟨rfl, -⟩ := List.cons.inj hover
        rw [hbefore] at hmark
        exact absurd (List.mem_append_right before List.mem_cons_self) hmark
    · exact ⟨inside, hbefore⟩
  obtain ⟨inside, rfl⟩ := hinside
  exact ⟨tag, inside, rfl, htag⟩

theorem closeTagHere_append_eq_none (hname : Unmarked name) {c : Char}
    {before more more' : List Char}
    (h : closeTagHere? name (c :: before ++ '<' :: more) = none) :
    closeTagHere? name (c :: before ++ '<' :: more') = none := by
  cases hclose : closeTagHere? name (c :: before ++ '<' :: more') with
  | none => rfl
  | some rest =>
    obtain ⟨tag, inside, hbefore, htag⟩ := closeTagHere_append_consumes hname hclose
    rw [hbefore, List.append_assoc, htag] at h
    cases h

theorem takeTagEnd_eq_some {attrs : List Char} :
    takeTagEnd? cs = some (attrs, rest) ↔
      cs = attrs ++ '>' :: rest ∧ '>' ∉ attrs ∧ ∀ c ∈ attrs.head?, Text.isBlank c := by
  constructor
  · intro h
    rw [takeTagEnd?.eq_def] at h
    split at h
    · cases h
      simp
    · next c cs hc =>
      split at h
      · next hblank =>
        split at h
        · next d rest' hdrop =>
          cases h
          have hd := List.head?_dropWhile_not (· != '>') (c :: cs)
          rw [hdrop] at hd
          obtain rfl : d = '>' := by simpa using hd
          refine ⟨?_, fun hmem => absurd (List.mem_takeWhile_imp hmem) (by decide), ?_⟩
          · rw [← hdrop, List.takeWhile_append_dropWhile]
          · rw [List.takeWhile_cons_of_pos (by simpa using hc)]
            simpa using hblank
        · cases h
      · cases h
    · cases h
  · rintro ⟨rfl, hmark, hblank⟩
    cases attrs with
    | nil => rfl
    | cons c attrs =>
      have hne : ∀ d ∈ c :: attrs, (d != '>') = true := fun d hd =>
        bne_iff_ne.mpr fun h => hmark (h ▸ hd)
      have hstop : ∀ d ∈ ('>' :: rest).head?, (d != '>') = false := by simp
      rw [takeTagEnd?.eq_def]
      simp only [List.cons_append]
      split
      · next h =>
        cases h
        simp at hmark
      · next d cs' _ h =>
        cases h
        obtain ⟨htake, hdrop⟩ := Text.takeWhile_stop hne hstop
        rw [if_pos (hblank c rfl), ← List.cons_append, hdrop, htake]
      · next h => cases h

theorem sameTagHere_eq_some {attrs : List Char} :
    sameTagHere? name cs = some (attrs, rest) ↔ ∃ text after, cs = '<' :: text ∧
      afterName? name text = some after ∧ takeTagEnd? after = some (attrs, rest) := by
  rw [sameTagHere?.eq_def]
  split
  · simp [Option.bind_eq_some_iff]
  · next hshape =>
    simp only [reduceCtorEq, false_iff, not_exists]
    rintro text _ ⟨rfl, _⟩
    exact hshape text rfl

theorem sameTagHere_consumes (hname : Unmarked name) {attrs : List Char}
    (h : sameTagHere? name cs = some (attrs, rest)) :
    ∃ tag, cs = '<' :: tag ++ rest ∧
      ∀ more, sameTagHere? name ('<' :: tag ++ more) = some (attrs, more) := by
  obtain ⟨text, after, rfl, hafter, hend⟩ := sameTagHere_eq_some.mp h
  obtain ⟨head, rfl, -, hhead⟩ := afterName_consumes hname hafter
  obtain ⟨rfl, hattrs⟩ := takeTagEnd_eq_some.mp hend
  refine ⟨head ++ attrs ++ ['>'], by simp, fun more => ?_⟩
  rw [sameTagHere_eq_some]
  exact ⟨_, attrs ++ '>' :: more, by simp, hhead _, takeTagEnd_eq_some.mpr ⟨rfl, hattrs⟩⟩

theorem sameTagHere_slash (hname : Unmarked name) :
    sameTagHere? name ('<' :: '/' :: cs) = none := by
  cases name with
  | nil => rfl
  | cons n name => simp [sameTagHere?, afterName?, (hname n List.mem_cons_self).2]

theorem sameTagHere_append_eq_none (hname : Unmarked name) {c : Char}
    {before more more' : List Char} (hend : '>' ∈ more)
    (h : sameTagHere? name (c :: before ++ '<' :: more) = none) :
    sameTagHere? name (c :: before ++ '<' :: more') = none := by
  cases htag : sameTagHere? name (c :: before ++ '<' :: more') with
  | none => rfl
  | some found =>
    obtain ⟨attrs, rest⟩ := found
    obtain ⟨text, after, hcs, hafter, htag⟩ := sameTagHere_eq_some.mp htag
    simp only [List.cons_append, List.cons.injEq] at hcs
    obtain ⟨rfl, rfl⟩ := hcs
    rw [afterName_append hname, Option.map_eq_some_iff] at hafter
    obtain ⟨behind, hbehind, rfl⟩ := hafter
    obtain ⟨hsplit, hmark, hblank⟩ := takeTagEnd_eq_some.mp htag
    -- Before the other text the tag may end elsewhere, but its name is followed by the same.
    obtain ⟨attrs', rest', hsplit', hmark'⟩ :=
      List.eq_append_cons_of_mem (List.mem_append_right behind (List.mem_cons_of_mem '<' hend))
    have hafter' : afterName? name (before ++ '<' :: more) = some (behind ++ '<' :: more) := by
      rw [afterName_append hname, hbehind, Option.map_some]
    have hblank' : ∀ d ∈ attrs'.head?, Text.isBlank d := by
      intro d hd
      obtain ⟨attrs', rfl⟩ := List.head?_eq_some_iff.mp hd
      cases behind with
      | nil =>
        cases attrs with
        | nil => simp at hsplit
        | cons a attrs =>
          obtain ⟨rfl, -⟩ := List.cons.inj hsplit
          exact absurd (hblank '<' rfl) (by decide)
      | cons b behind =>
        obtain ⟨rfl, -⟩ := List.cons.inj hsplit'
        cases attrs with
        | nil =>
          obtain ⟨rfl, -⟩ := List.cons.inj hsplit
          exact absurd List.mem_cons_self hmark'
        | cons a attrs =>
          obtain ⟨rfl, -⟩ := List.cons.inj hsplit
          exact hblank b rfl
    have hsame : sameTagHere? name ('<' :: before ++ '<' :: more) = some (attrs', rest') :=
      sameTagHere_eq_some.mpr
        ⟨_, _, rfl, hafter', takeTagEnd_eq_some.mpr ⟨hsplit', hmark', hblank'⟩⟩
    rw [hsame] at h
    cases h

end Tags

/--
A name in small letters is the row of its small letters, but for the signs that only the dotted capital I
and the final sigma give.
-/
theorem map_lowerChar_of_lowerTag {name : List Char} {s : String} (h : lowerTag name = s)
    (hdot : '\u0307' ∉ s.toList) (hfinal : 'ς' ∉ s.toList) :
    name.map Text.lowerChar = s.toList := by
  have hlower (before name : List Char) (hdot : '\u0307' ∉ Text.lowerFrom before name)
      (hfinal : 'ς' ∉ Text.lowerFrom before name) :
      Text.lowerFrom before name = name.map Text.lowerChar := by
    induction name generalizing before with
    | nil => rfl
    | cons c name ih =>
      rw [Text.lowerFrom, List.mem_append, not_or, Text.lowerChars] at hdot hfinal
      have hone : Text.lowerChars before c name = [Text.lowerChar c] := by
        rw [Text.lowerChars]
        split_ifs at hdot hfinal ⊢ <;> simp_all
      rw [Text.lowerFrom, hone, ih _ hdot.2 hfinal.2, List.map_cons, List.singleton_append]
  have htext : s.toList = Text.lowerFrom [] name := by
    rw [← h, lowerTag, Text.lower, String.toList_ofList, String.toList_ofList]
  rw [htext] at hdot hfinal ⊢
  exact (hlower [] name hdot hfinal).symm

section Searches

variable {name text content rest : List Char}

theorem closeTagHere_congr {other : List Char}
    (h : name.map Text.lowerChar = other.map Text.lowerChar) :
    closeTagHere? name text = closeTagHere? other text := by
  simp only [closeTagHere?.eq_def, afterName_congr h]

theorem sameTagHere_congr {other : List Char}
    (h : name.map Text.lowerChar = other.map Text.lowerChar) :
    sameTagHere? name text = sameTagHere? other text := by
  simp only [sameTagHere?.eq_def, afterName_congr h]

theorem findClose_congr {other : List Char}
    (h : name.map Text.lowerChar = other.map Text.lowerChar)
    (hkind : isRawText name = isRawText other) : findClose? name text = findClose? other text := by
  have hraw (text : List Char) : findRawClose? name text = findRawClose? other text := by
    induction text with
    | nil => rfl
    | cons c text ih => simp only [findRawClose?, closeTagHere_congr h, ih]
  have hnested (fuel depth : Nat) (text : List Char) :
      findNestedClose? name fuel depth text = findNestedClose? other fuel depth text := by
    induction fuel generalizing depth text with
    | zero => rfl
    | succ fuel ih =>
      cases text with
      | nil => rfl
      | cons c text =>
        simp only [findNestedClose?, sameTagHere_congr h, closeTagHere_congr h, ih]
  simp only [findClose?, hkind, hraw, hnested]

theorem findRawClose_again (hname : Unmarked name)
    (h : findRawClose? name text = some (content, rest)) :
    (∃ tag, text = content ++ '<' :: tag) ∧
      ∀ more, findRawClose? name (content ++ (closing name ++ more)) = some (content, more) := by
  induction text generalizing content with
  | nil => cases h
  | cons c text ih =>
    rw [findRawClose?] at h
    split at h
    · next hclose =>
      cases h
      obtain ⟨tag, htag, -⟩ := closeTagHere_consumes hname hclose
      refine ⟨⟨_, htag⟩, fun more => ?_⟩
      have hclose := closeTagHere_closing name more
      rw [closing, List.cons_append] at hclose
      rw [List.nil_append, closing, List.cons_append, findRawClose?, hclose]
    · next hclose =>
      rw [Option.map_eq_some_iff] at h
      obtain ⟨⟨before, rest'⟩, hfind, heq⟩ := h
      cases heq
      obtain ⟨⟨tag, rfl⟩, hagain⟩ := ih hfind
      refine ⟨⟨tag, rfl⟩, fun more => ?_⟩
      have hnone : closeTagHere? name (c :: (before ++ (closing name ++ more))) = none :=
        closeTagHere_append_eq_none hname hclose
      rw [List.cons_append, findRawClose?, hnone, hagain, Option.map_some]

/-!
The search among nested tags, one step at a time.
-/

theorem take_tag (tag text : List Char) :
    (tag ++ text).take ((tag ++ text).length - text.length) = tag := by
  rw [List.length_append, Nat.add_sub_cancel, List.take_left]

theorem findNestedClose_open {tag attrs : List Char} (fuel depth : Nat)
    (h : sameTagHere? name ('<' :: tag ++ text) = some (attrs, text)) :
    findNestedClose? name (fuel + 1) depth ('<' :: tag ++ text) =
      (findNestedClose? name fuel (if endsWithSlash attrs then depth else depth + 1) text).map
        fun p => ('<' :: tag ++ p.1, p.2) := by
  have htake := take_tag ('<' :: tag) text
  simp only [List.cons_append] at h htake ⊢
  simp only [findNestedClose?, h, htake, List.cons_append]

theorem findNestedClose_close (hname : Unmarked name) {tag : List Char} (fuel depth : Nat)
    (h : closeTagHere? name ('<' :: '/' :: tag ++ text) = some text) :
    findNestedClose? name (fuel + 1) depth ('<' :: '/' :: tag ++ text) =
      if depth ≤ 1 then some ([], text)
      else (findNestedClose? name fuel (depth - 1) text).map
        fun p => ('<' :: '/' :: tag ++ p.1, p.2) := by
  have htake := take_tag ('<' :: '/' :: tag) text
  simp only [List.cons_append] at h htake ⊢
  simp only [findNestedClose?, h, sameTagHere_slash hname, htake, List.cons_append]

theorem findNestedClose_char {c : Char} (fuel depth : Nat)
    (hsame : sameTagHere? name (c :: text) = none)
    (hclose : closeTagHere? name (c :: text) = none) :
    findNestedClose? name (fuel + 1) depth (c :: text) =
      (findNestedClose? name fuel depth text).map fun p => (c :: p.1, p.2) := by
  simp only [findNestedClose?, hsame, hclose]

def CutAgain (name : List Char) (depth : Nat) (text content : List Char) : Prop :=
  (∃ tag, text = content ++ '<' :: tag ∧ '>' ∈ tag) ∧
    ∀ more fuel, content.length < fuel →
      findNestedClose? name fuel depth (content ++ (closing name ++ more)) = some (content, more)

theorem CutAgain.step {skipped before : List Char} {depth depth' : Nat} (hskipped : skipped ≠ [])
    (h : CutAgain name depth' text before)
    (hstep : ∀ next fuel,
      findNestedClose? name (fuel + 1) depth (skipped ++ (before ++ (closing name ++ next))) =
        (findNestedClose? name fuel depth' (before ++ (closing name ++ next))).map
          fun p => (skipped ++ p.1, p.2)) :
    CutAgain name depth (skipped ++ text) (skipped ++ before) := by
  obtain ⟨⟨tag, rfl, hend⟩, hagain⟩ := h
  refine ⟨⟨tag, by rw [List.append_assoc], hend⟩, fun more fuel hfuel => ?_⟩
  have hpos := List.length_pos_iff.mpr hskipped
  obtain ⟨fuel, rfl⟩ := Nat.exists_eq_add_one.mpr (Nat.zero_lt_of_lt hfuel)
  rw [List.length_append] at hfuel
  rw [List.append_assoc, hstep, hagain _ _ (by omega), Option.map_some]

theorem cutAgain_of_findNestedClose (hname : Unmarked name) {fuel depth : Nat}
    (h : findNestedClose? name fuel depth text = some (content, rest)) :
    CutAgain name depth text content := by
  induction fuel generalizing depth text content with
  | zero => cases h
  | succ fuel ih =>
    cases text with
    | nil => cases h
    | cons c text =>
      cases hsame : sameTagHere? name (c :: text) with
      | some found =>
        obtain ⟨attrs, behind⟩ := found
        obtain ⟨tag, htext, htag⟩ := sameTagHere_consumes hname hsame
        rw [htext] at h ⊢
        rw [findNestedClose_open fuel depth (htag behind), Option.map_eq_some_iff] at h
        obtain ⟨⟨before, rest'⟩, hfind, heq⟩ := h
        cases heq
        exact (ih hfind).step (List.cons_ne_nil _ _) fun next fuel =>
          findNestedClose_open fuel depth (htag _)
      | none =>
        cases hclose : closeTagHere? name (c :: text) with
        | some behind =>
          obtain ⟨tag, htext, -, hend, htag⟩ := closeTagHere_consumes hname hclose
          rw [htext] at h ⊢
          rw [findNestedClose_close hname fuel depth (htag behind)] at h
          split at h
          · next hdepth =>
            cases h
            refine ⟨⟨_, rfl, by simp [hend]⟩, fun more fuel' hfuel => ?_⟩
            obtain ⟨fuel', rfl⟩ := Nat.exists_eq_add_one.mpr (Nat.zero_lt_of_lt hfuel)
            rw [List.nil_append, closing, findNestedClose_close hname fuel' depth
              (closeTagHere_closing name more), if_pos hdepth]
          · next hdepth =>
            rw [Option.map_eq_some_iff] at h
            obtain ⟨⟨before, rest'⟩, hfind, heq⟩ := h
            cases heq
            refine (ih hfind).step (List.cons_ne_nil _ _) fun next fuel => ?_
            rw [findNestedClose_close hname fuel depth (htag _), if_neg hdepth]
        | none =>
          rw [findNestedClose_char fuel depth hsame hclose, Option.map_eq_some_iff] at h
          obtain ⟨⟨before, rest'⟩, hfind, heq⟩ := h
          cases heq
          have hbefore := ih hfind
          obtain ⟨⟨tag, rfl, hend⟩, -⟩ := id hbefore
          exact hbefore.step (List.cons_ne_nil c []) fun next fuel =>
            findNestedClose_char fuel depth (sameTagHere_append_eq_none hname hend hsame)
              (closeTagHere_append_eq_none hname hclose)

theorem findClose_again (hname : Unmarked name) (h : findClose? name text = some (content, rest))
    (more : List Char) :
    findClose? name (content ++ (closing name ++ more)) = some (content, more) := by
  rw [findClose?] at h ⊢
  split at h
  · next hraw =>
    rw [if_pos hraw]
    exact (findRawClose_again hname h).2 more
  · next hraw =>
    rw [if_neg hraw]
    apply (cutAgain_of_findNestedClose hname h).2
    rw [List.length_append]
    omega

theorem findClose_closing (hname : Unmarked name) (more : List Char) :
    findClose? name (closing name ++ more) = some ([], more) := by
  have hclose := closeTagHere_closing name more
  rw [closing] at hclose
  rw [findClose?]
  split
  · rw [closing, List.cons_append, findRawClose?]
    rw [List.cons_append] at hclose
    rw [hclose]
  · rw [closing, findNestedClose_close hname _ _ hclose, if_pos (Nat.le_refl _)]

end Searches

end Polyglot.Component
