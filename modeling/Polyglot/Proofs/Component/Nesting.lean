import Mathlib.Data.List.Forall2
import Mathlib.Data.List.Infix
import Polyglot.Proofs.Component.Closing

/-!
Tag names, and contents in which the tags of a name are properly nested: the search for the closing tag of a
block finds the one behind its contents, however deep they are and whatever text they hold.

What is taken for a name is one, whatever stands behind it, and no character of a name begins a tag.
-/

namespace Polyglot.Component

/--
An ASCII letter, and letters, numbers, underscores and hyphens.
-/
def IsTagName (tag : List Char) : Prop :=
  ∃ first more, tag = first :: more ∧ Text.isAsciiLetter first ∧ ∀ c ∈ more, isTagChar c

theorem isTagChar_of_mem {tag : List Char} (h : IsTagName tag) {c : Char} (hc : c ∈ tag) :
    isTagChar c := by
  obtain ⟨first, more, rfl, hfirst, hmore⟩ := h
  rcases List.mem_cons.mp hc with rfl | hc
  · have hascii : c.toNat < 128 := by
      simp only [Text.isAsciiLetter, Bool.or_eq_true, Bool.and_eq_true, decide_eq_true_eq] at hfirst
      rcases hfirst with ⟨-, hle⟩ | ⟨-, hle⟩ <;> exact Nat.lt_of_le_of_lt hle (by decide)
    simp [isTagChar, Text.isWord, hascii, hfirst]
  · exact hmore c hc

def wideBlanks : List Nat :=
  List.range' 0x2000 11 ++ [0x85, 0xa0, 0x1680, 0x2028, 0x2029, 0x202f, 0x205f, 0x3000]

theorem wideBlanks_not_word {n : Nat} (h : n ∈ wideBlanks) :
    Text.inRanges Text.wordRanges n = false := by
  have hall : Text.wordRanges.toList.all fun r =>
      wideBlanks.all fun n => !(Nat.ble r.1 n && Nat.ble n r.2) := by decide +kernel
  rw [Text.inRanges, Array.any_eq_false']
  intro r hr
  have := List.all_eq_true.mp (List.all_eq_true.mp hall r (Array.mem_toList_iff.mpr hr)) n h
  simp only [Bool.not_eq_true', ← Bool.not_eq_true, Bool.and_eq_true, Nat.ble_eq] at this
  simpa only [Bool.and_eq_true, decide_eq_true_eq] using this

theorem isTagChar_of_isBlank {c : Char} (hc : Text.isBlank c) : isTagChar c = false := by
  have hcodes : c.toNat ≤ 32 ∨ c.toNat ∈ wideBlanks := by
    simp only [Text.isBlank, Bool.or_eq_true, Bool.and_eq_true, decide_eq_true_eq, beq_iff_eq] at hc
    simp only [wideBlanks, List.mem_append, List.mem_range'_1, List.mem_cons, List.not_mem_nil]
    omega
  have hne : c ≠ '-' := by
    rintro rfl
    exact absurd hc (by decide)
  have hword : Text.isWord c = false := by
    rcases hcodes with hle | hwide
    · have hall : ∀ n < 33, Text.isWord (Char.ofNat n) = false := by decide +kernel
      have := hall c.toNat (Nat.lt_succ_of_le hle)
      rwa [Char.ofNat_toNat] at this
    · have hge : ¬ c.toNat < 128 := by
        have hall : ∀ n ∈ wideBlanks, ¬ n < 128 := by decide
        exact hall _ hwide
      rw [Text.isWord, if_neg hge, wideBlanks_not_word hwide]
  simp [isTagChar, hword, hne]

section Scanners

variable {cs tag rest : List Char}

theorem takeTagName_eq_some_iff : takeTagName? cs = some (tag, rest) ↔
    cs = tag ++ rest ∧ IsTagName tag ∧ ∀ c ∈ rest.head?, isTagChar c = false := by
  constructor
  · intro h
    cases cs with
    | nil => cases h
    | cons c cs =>
      rw [takeTagName?] at h
      split at h
      · next hc =>
        cases h
        refine ⟨by rw [List.cons_append, List.takeWhile_append_dropWhile],
          ⟨c, _, rfl, hc, fun _ => List.mem_takeWhile_imp⟩, fun d hd => ?_⟩
        have hstop := List.head?_dropWhile_not isTagChar cs
        rw [Option.mem_def.mp hd] at hstop
        exact hstop
      · cases h
  · rintro ⟨rfl, ⟨first, more, rfl, hfirst, hmore⟩, hrest⟩
    obtain ⟨htake, hdrop⟩ := Text.takeWhile_stop hmore hrest
    rw [List.cons_append, takeTagName?, if_pos hfirst, htake, hdrop]

theorem openTagHere_eq_some {t : OpenTag} : openTagHere? cs = some t ↔
    cs = '<' :: (t.tag ++ (t.attrs ++ '>' :: t.rest)) ∧ IsTagName t.tag ∧ '>' ∉ t.attrs ∧
      ∀ c ∈ t.attrs.head?, Text.isBlank c := by
  constructor
  · intro h
    rw [openTagHere?.eq_def] at h
    split at h
    · split at h
      · cases h
      · next hname =>
        obtain ⟨rfl, htag, -⟩ := takeTagName_eq_some_iff.mp hname
        obtain ⟨_, hend, rfl⟩ := Option.map_eq_some_iff.mp h
        obtain ⟨rfl, hattrs⟩ := takeTagEnd_eq_some.mp hend
        exact ⟨rfl, htag, hattrs⟩
    · cases h
  · rintro ⟨rfl, htag, hattrs⟩
    have hstop : ∀ c ∈ (t.attrs ++ '>' :: t.rest).head?, isTagChar c = false := by
      cases hcs : t.attrs with
      | nil =>
        have hsign : isTagChar '>' = false := by decide
        simp [hsign]
      | cons c attrs =>
        have hblank := hattrs.2 c (by rw [hcs]; rfl)
        simpa using isTagChar_of_isBlank hblank
    rw [openTagHere?, takeTagName_eq_some_iff.mpr ⟨rfl, htag, hstop⟩]
    dsimp only
    rw [takeTagEnd_eq_some.mpr ⟨rfl, hattrs⟩, Option.map_some]

theorem findOpenTag_text {tag attrs : List Char} (rest : List Char) (htag : IsTagName tag)
    (hend : '>' ∉ attrs) (hhead : ∀ c ∈ attrs.head?, Text.isBlank c) :
    findOpenTag? ('<' :: (tag ++ (attrs ++ '>' :: rest))) = some ([], ⟨tag, attrs, rest⟩) := by
  have hhere : openTagHere? ('<' :: (tag ++ (attrs ++ '>' :: rest))) = some ⟨tag, attrs, rest⟩ :=
    openTagHere_eq_some.mpr ⟨rfl, htag, hend, hhead⟩
  rw [findOpenTag?, hhere]

theorem openTagHere_of_findOpenTag {before : List Char} {t : OpenTag}
    (h : findOpenTag? cs = some (before, t)) :
    ∃ behind, cs = before ++ behind ∧ openTagHere? behind = some t := by
  induction cs generalizing before with
  | nil => cases h
  | cons c cs ih =>
    rw [findOpenTag?] at h
    split at h
    · next hhere =>
      cases h
      exact ⟨c :: cs, rfl, hhere⟩
    · obtain ⟨⟨before', t'⟩, hfind, heq⟩ := Option.map_eq_some_iff.mp h
      cases heq
      obtain ⟨behind, rfl, hhere⟩ := ih hfind
      exact ⟨behind, rfl, hhere⟩

end Scanners

/-!
No character of a name is the sign of a tag in another case.
-/

theorem lowerRuns_far : ∀ r ∈ Text.lowerRuns, (62 : Int) < r.first + r.shift := by
  have hall : Text.lowerRuns.all (fun r => decide ((62 : Int) < r.first + r.shift)) := by
    decide +kernel
  simpa only [decide_eq_true_eq] using Array.all_eq_true'.mp hall

theorem toNat_ofNat_ne {n k : Nat} (hk : k ≠ 0) (h : n ≠ k) : (Char.ofNat n).toNat ≠ k := by
  by_cases hn : n.isValidChar
  · rw [Char.ofNat, dif_pos hn]
    exact h
  · rw [Char.ofNat, dif_neg hn]
    exact hk.symm

theorem toNat_lowerChar_ne {c : Char} (hc : 128 ≤ c.toNat) {k : Nat} (hk : k ≠ 0) (hle : k ≤ 62) :
    (Text.lowerChar c).toNat ≠ k := by
  rw [Text.lowerChar, if_neg (Nat.not_lt.mpr hc)]
  split
  · next r hr =>
    have hfar := lowerRuns_far r (Array.mem_of_find?_eq_some hr)
    have hhas := Array.find?_some hr
    simp only [Text.CaseRun.has, Bool.and_eq_true, decide_eq_true_eq] at hhas
    refine toNat_ofNat_ne hk ?_
    omega
  · omega

theorem sameLetter_of_isTagChar {c : Char} (hc : isTagChar c) :
    ∀ d ∈ ['<', '/', '>'], Text.sameLetter c d = false := by
  have hascii : (List.range 128).all fun n => !isTagChar (Char.ofNat n) ||
      ['<', '/', '>'].all fun d => !Text.sameLetter (Char.ofNat n) d := by
    decide +kernel
  by_cases hlt : c.toNat < 128
  · have hsigns := List.all_eq_true.mp hascii c.toNat (List.mem_range.mpr hlt)
    rw [Char.ofNat_toNat, hc, Bool.not_true, Bool.false_or] at hsigns
    simpa only [List.all_eq_true, Bool.not_eq_true'] using hsigns
  · have htable : ∀ e ∈ Text.sameLetterTable, 60 ∉ e.2 ∧ 47 ∉ e.2 ∧ 62 ∉ e.2 := by
      have hall : Text.sameLetterTable.all fun e => decide (60 ∉ e.2 ∧ 47 ∉ e.2 ∧ 62 ∉ e.2) := by
        decide +kernel
      simpa only [decide_eq_true_eq] using Array.all_eq_true'.mp hall
    have hne (d : Char) (hd : Text.lowerChar d = d) (hzero : d.toNat ≠ 0) (hle : d.toNat ≤ 62)
        (hmem : ∀ e ∈ Text.sameLetterTable, d.toNat ∉ e.2) : Text.sameLetter c d = false := by
      have hlower := toNat_lowerChar_ne (Nat.le_of_not_lt hlt) hzero hle
      simp only [Text.sameLetter, hd, Bool.or_eq_false_iff, beq_eq_false_iff_ne]
      refine ⟨fun heq => hlower (congrArg Char.toNat heq), ?_⟩
      split
      · next others hfind =>
        simpa using hmem _ (Array.mem_of_find?_eq_some hfind)
      · rfl
    simp only [List.mem_cons, List.not_mem_nil, or_false, forall_eq_or_imp, forall_eq]
    exact ⟨hne '<' rfl (by decide) (by decide) fun e he => (htable e he).1,
      hne '/' rfl (by decide) (by decide) fun e he => (htable e he).2.1,
      hne '>' rfl (by decide) (by decide) fun e he => (htable e he).2.2⟩

theorem unmarked_of_isTagName {tag : List Char} (h : IsTagName tag) : Unmarked tag := fun _ hc =>
  have hsigns := sameLetter_of_isTagChar (isTagChar_of_mem h hc)
  ⟨hsigns '<' (by simp), hsigns '/' (by simp)⟩

/-!
Contents that hold equal tags properly nested, and contents of raw text without closing tags: the search
for the closing tag of a block finds the one behind its content.
-/

section Tags

def SameName (name written : List Char) : Prop :=
  List.Forall₂ (fun n c => Text.sameLetter n c) name written

theorem afterName_eq_some {name cs rest : List Char} :
    afterName? name cs = some rest ↔ ∃ written, SameName name written ∧ cs = written ++ rest := by
  induction name generalizing cs with
  | nil =>
    refine ⟨fun h => ⟨[], .nil, Option.some.inj h⟩, ?_⟩
    rintro ⟨_, ⟨⟩, rfl⟩
    rfl
  | cons n name ih =>
    cases cs with
    | nil =>
      simp only [afterName?, reduceCtorEq, false_iff, not_exists, not_and]
      rintro _ ⟨⟩ h
      cases h
    | cons c cs =>
      rw [afterName?]
      split
      · next hsame =>
        rw [ih]
        constructor
        · rintro ⟨written, hname, rfl⟩
          exact ⟨c :: written, .cons hsame hname, rfl⟩
        · rintro ⟨_, ⟨⟩, h⟩
          next hname =>
          obtain ⟨rfl, rfl⟩ := List.cons.inj h
          exact ⟨_, hname, rfl⟩
      · next hsame =>
        simp only [reduceCtorEq, false_iff, not_exists, not_and]
        rintro _ ⟨⟩ h
        next hhead _ =>
        obtain ⟨rfl, -⟩ := List.cons.inj h
        exact hsame hhead

def IsClosing (name tag : List Char) : Prop :=
  ∃ written blanks, SameName name written ∧ (∀ c ∈ blanks, Text.isBlank c) ∧
    tag = '<' :: '/' :: (written ++ blanks ++ ['>'])

def IsOpening (name attrs tag : List Char) : Prop :=
  ∃ written, SameName name written ∧ '>' ∉ attrs ∧ (∀ c ∈ attrs.head?, Text.isBlank c) ∧
    tag = '<' :: (written ++ attrs ++ ['>'])

def BeginsTag (name text : List Char) : Prop :=
  (∃ tag rest, IsClosing name tag ∧ text = tag ++ rest) ∨
    ∃ written c rest, SameName name written ∧ (Text.isBlank c ∨ c = '>') ∧
      text = '<' :: (written ++ c :: rest)

/--
Contents in which the tags of a name are properly nested. A tag that closes itself opens nothing.
-/
inductive Nested (name : List Char) : List Char → Prop where
  | nil : Nested name []
  | char {c : Char} {rest : List Char} (hplain : ¬ BeginsTag name (c :: rest))
      (hrest : Nested name rest) : Nested name (c :: rest)
  | closed {attrs tag rest : List Char} (htag : IsOpening name attrs tag)
      (hslash : endsWithSlash attrs) (hrest : Nested name rest) : Nested name (tag ++ rest)
  | element {attrs opening body closing rest : List Char} (hopening : IsOpening name attrs opening)
      (hslash : endsWithSlash attrs = false) (hbody : Nested name body)
      (hclosing : IsClosing name closing) (hrest : Nested name rest) :
      Nested name (opening ++ (body ++ (closing ++ rest)))

/--
What the content of a block may be: no closing tag stands in raw text, and in other contents the tags of
the block's name are properly nested.
-/
def Holds (name content : List Char) : Prop :=
  if isRawText name then ∀ before tag rest, IsClosing name tag → content ≠ before ++ tag ++ rest
  else Nested name content

variable {name : List Char}

theorem Nested.unmarked_append (before : List Char) {rest : List Char} (h : '<' ∉ before)
    (hrest : Nested name rest) : Nested name (before ++ rest) := by
  induction before with
  | nil => exact hrest
  | cons c before ih =>
    rw [List.mem_cons, not_or] at h
    refine .char (fun hbegins => ?_) (ih h.2)
    have hne {cs : List Char} (heq : c :: (before ++ rest) = '<' :: cs) : False :=
      h.1 (List.cons.inj heq).1.symm
    rcases hbegins with ⟨_, _, ⟨_, _, -, -, rfl⟩, heq⟩ | ⟨_, _, _, -, -, heq⟩ <;> exact hne heq

theorem isClosing_closing (name : List Char) : IsClosing name (closing name) := by
  have hsame : SameName name name := List.forall₂_same.mpr fun n _ => by simp [Text.sameLetter]
  exact ⟨name, [], hsame, by simp, by simp [closing]⟩

theorem closeTagHere_of_isClosing {tag : List Char} (h : IsClosing name tag) (more : List Char) :
    closeTagHere? name (tag ++ more) = some more := by
  obtain ⟨written, blanks, hsame, hblanks, rfl⟩ := h
  rw [closeTagHere_eq_some]
  refine ⟨written ++ (blanks ++ '>' :: more), blanks ++ '>' :: more, by simp,
    afterName_eq_some.mpr ⟨_, hsame, rfl⟩, ?_⟩
  exact Text.trimLeft_blanks_cons hblanks (by decide) more

theorem exists_isClosing_of_closeTagHere {text rest : List Char}
    (h : closeTagHere? name text = some rest) : ∃ tag, IsClosing name tag ∧ text = tag ++ rest := by
  obtain ⟨text, after, rfl, hafter, htrim⟩ := closeTagHere_eq_some.mp h
  obtain ⟨written, hsame, rfl⟩ := afterName_eq_some.mp hafter
  have hsplit : after.takeWhile Text.isBlank ++ '>' :: rest = after := by
    rw [← htrim]
    exact List.takeWhile_append_dropWhile
  refine ⟨_, ⟨written, after.takeWhile Text.isBlank, hsame,
    fun c hc => List.mem_takeWhile_imp hc, rfl⟩, ?_⟩
  simp [hsplit]

theorem sameTagHere_of_isOpening {attrs tag : List Char} (h : IsOpening name attrs tag)
    (more : List Char) : sameTagHere? name (tag ++ more) = some (attrs, more) := by
  obtain ⟨written, hsame, hend, hblank, rfl⟩ := h
  rw [sameTagHere_eq_some]
  exact ⟨written ++ (attrs ++ '>' :: more), attrs ++ '>' :: more, by simp,
    afterName_eq_some.mpr ⟨_, hsame, rfl⟩, takeTagEnd_eq_some.mpr ⟨rfl, hend, hblank⟩⟩

theorem closeTagHere_append_of_not {c : Char} {before : List Char} (hname : Unmarked name)
    (h : ∀ tag rest, IsClosing name tag → c :: before ≠ tag ++ rest) (more : List Char) :
    closeTagHere? name (c :: before ++ '<' :: more) = none := by
  cases hclose : closeTagHere? name (c :: before ++ '<' :: more) with
  | none => rfl
  | some rest =>
    obtain ⟨tag, inside, hbefore, htag⟩ := closeTagHere_append_consumes hname hclose
    obtain ⟨closing, hclosing, heq⟩ := exists_isClosing_of_closeTagHere (htag inside)
    exact absurd (hbefore.trans heq) (h closing inside hclosing)

theorem sameTagHere_append_of_not {c : Char} {before : List Char} (hname : Unmarked name)
    (h : ¬ BeginsTag name (c :: before)) (more : List Char) :
    sameTagHere? name (c :: before ++ '<' :: more) = none := by
  cases hsame : sameTagHere? name (c :: before ++ '<' :: more) with
  | none => rfl
  | some found =>
    obtain ⟨text, after, hcs, hafter, hend⟩ := sameTagHere_eq_some.mp hsame
    rw [List.cons_append] at hcs
    obtain ⟨rfl, rfl⟩ := List.cons.inj hcs
    rw [afterName_append hname, Option.map_eq_some_iff] at hafter
    obtain ⟨behind, hbehind, rfl⟩ := hafter
    obtain ⟨written, hwritten, rfl⟩ := afterName_eq_some.mp hbehind
    obtain ⟨hsplit, -, hblank⟩ := takeTagEnd_eq_some.mp hend
    -- The name is not followed by the other tag, but by a blank or the end of its own one.
    have hfollows : ∃ d rest, behind = d :: rest ∧ (Text.isBlank d ∨ d = '>') := by
      cases behind with
      | nil =>
        cases hattrs : found.1 with
        | nil => simp [hattrs] at hsplit
        | cons d attrs =>
          rw [hattrs] at hsplit hblank
          obtain ⟨rfl, -⟩ := List.cons.inj hsplit
          exact absurd (hblank '<' rfl) (by decide)
      | cons d rest =>
        refine ⟨d, rest, rfl, ?_⟩
        cases hattrs : found.1 with
        | nil =>
          rw [hattrs] at hsplit
          exact .inr (List.cons.inj hsplit).1
        | cons a attrs =>
          rw [hattrs] at hsplit hblank
          obtain ⟨rfl, -⟩ := List.cons.inj hsplit
          exact .inl (hblank d rfl)
    obtain ⟨d, rest, rfl, hd⟩ := hfollows
    exact absurd (.inr ⟨written, d, rest, hwritten, hd, rfl⟩) h

end Tags

section Searches

variable {name content : List Char}

theorem Nested.passes (hname : Unmarked name) (h : Nested name content) {depth fuel : Nat}
    {more : List Char} (hdepth : 1 ≤ depth) (hfuel : (content ++ '<' :: more).length < fuel) :
    ∃ fuel', ('<' :: more).length < fuel' ∧
      findNestedClose? name fuel depth (content ++ '<' :: more) =
        (findNestedClose? name fuel' depth ('<' :: more)).map fun p => (content ++ p.1, p.2) := by
  induction h generalizing depth fuel more with
  | nil => exact ⟨fuel, hfuel, by simp⟩
  | @char c rest hplain hrest ih =>
    obtain ⟨fuel, rfl⟩ := Nat.exists_eq_add_one.mpr (Nat.zero_lt_of_lt hfuel)
    obtain ⟨fuel', hfuel', hpass⟩ := ih hdepth (Nat.lt_of_succ_lt_succ hfuel)
    have hclose := closeTagHere_append_of_not hname
      (fun tag rest htag heq => hplain (.inl ⟨tag, rest, htag, heq⟩)) more
    have hsame := sameTagHere_append_of_not hname hplain more
    refine ⟨fuel', hfuel', ?_⟩
    rw [List.cons_append] at hclose hsame ⊢
    rw [findNestedClose_char fuel depth hsame hclose, hpass, Option.map_map]
    rfl
  | @closed attrs tag rest htag hslash hrest ih =>
    obtain ⟨fuel, rfl⟩ := Nat.exists_eq_add_one.mpr (Nat.zero_lt_of_lt hfuel)
    have hopen := sameTagHere_of_isOpening htag
    obtain ⟨written, -, -, -, rfl⟩ := htag
    rw [List.append_assoc, List.length_append, List.length_cons] at hfuel
    have hlength : (rest ++ '<' :: more).length < fuel := by omega
    obtain ⟨fuel', hfuel', hpass⟩ := ih hdepth hlength
    refine ⟨fuel', hfuel', ?_⟩
    rw [List.append_assoc, findNestedClose_open fuel depth (hopen _), if_pos hslash, hpass,
      Option.map_map]
    simp [Function.comp_def]
  | @element attrs opening body closing rest hopening hslash hbody hclosing hrest ihbody ihrest =>
    obtain ⟨fuel, rfl⟩ := Nat.exists_eq_add_one.mpr (Nat.zero_lt_of_lt hfuel)
    have hopen := sameTagHere_of_isOpening hopening
    have hclose := closeTagHere_of_isClosing hclosing
    obtain ⟨opening, rfl⟩ : ∃ tag, opening = '<' :: tag := by
      obtain ⟨_, -, -, -, rfl⟩ := hopening
      exact ⟨_, rfl⟩
    obtain ⟨closing, rfl⟩ : ∃ tag, closing = '<' :: '/' :: tag := by
      obtain ⟨_, _, -, -, rfl⟩ := hclosing
      exact ⟨_, rfl⟩
    have htext : '<' :: opening ++ (body ++ ('<' :: '/' :: closing ++ rest)) ++ '<' :: more =
        '<' :: opening ++ (body ++ '<' :: ('/' :: closing ++ (rest ++ '<' :: more))) := by simp
    rw [htext] at hfuel ⊢
    rw [List.length_append, List.length_cons] at hfuel
    -- The content of the inner element ends where its closing tag begins.
    have hinner : (body ++ '<' :: ('/' :: closing ++ (rest ++ '<' :: more))).length < fuel := by omega
    obtain ⟨fuel₁, hfuel₁, hpass₁⟩ := ihbody (Nat.succ_le_succ (Nat.zero_le depth)) hinner
    obtain ⟨fuel₁, rfl⟩ := Nat.exists_eq_add_one.mpr (Nat.zero_lt_of_lt hfuel₁)
    rw [List.length_cons, List.length_append, List.length_cons] at hfuel₁
    have hbehind : (rest ++ '<' :: more).length < fuel₁ := by omega
    obtain ⟨fuel₂, hfuel₂, hpass₂⟩ := ihrest hdepth hbehind
    refine ⟨fuel₂, hfuel₂, ?_⟩
    have hdeeper : ¬ depth + 1 ≤ 1 := by omega
    have hend := findNestedClose_close hname fuel₁ (depth + 1) (hclose (rest ++ '<' :: more))
    rw [if_neg hdeeper, Nat.add_sub_cancel, hpass₂] at hend
    rw [findNestedClose_open fuel depth (hopen _), hslash, if_neg Bool.false_ne_true, hpass₁,
      ← List.cons_append, hend]
    simp [Function.comp_def]

theorem findClose_of_holds (hname : Unmarked name) (h : Holds name content) (more : List Char) :
    findClose? name (content ++ (closing name ++ more)) = some (content, more) := by
  have hclosing := closeTagHere_closing name more
  have htext : closing name ++ more = '<' :: ('/' :: (name ++ ['>']) ++ more) := rfl
  rw [htext] at hclosing ⊢
  rw [Holds] at h
  rw [findClose?]
  split at h
  · next hraw =>
    rw [if_pos hraw]
    induction content with
    | nil => rw [List.nil_append, findRawClose?, hclosing]
    | cons c content ih =>
      have hnone := closeTagHere_append_of_not hname
        (fun tag rest htag heq => h [] tag rest htag heq) ('/' :: (name ++ ['>']) ++ more)
      rw [List.cons_append] at hnone ⊢
      rw [findRawClose?, hnone, ih fun before tag rest htag heq =>
        h (c :: before) tag rest htag (congrArg (c :: ·) heq), Option.map_some]
  · next hraw =>
    rw [if_neg hraw]
    obtain ⟨fuel, hfuel, hpass⟩ := h.passes hname (Nat.le_refl 1)
      (Nat.lt_succ_self (content ++ '<' :: ('/' :: (name ++ ['>']) ++ more)).length)
    obtain ⟨fuel, rfl⟩ := Nat.exists_eq_add_one.mpr (Nat.zero_lt_of_lt hfuel)
    have hend := findNestedClose_close hname fuel 1 hclosing
    rw [if_pos (Nat.le_refl 1)] at hend
    rw [hpass, ← List.cons_append, hend, Option.map_some, List.append_nil]

end Searches

/-!
Contents that are built up from texts and elements are properly nested.
-/

section Contents

variable {name text content : List Char}

def Free (name text : List Char) : Prop :=
  ∀ written, SameName name written →
    ¬ '<' :: written <:+: text ∧ ¬ '<' :: '/' :: written <:+: text

def namesTag (name : List Char) : List Char → Bool
  | '<' :: cs =>
    (afterName? name cs).isSome || (cs.head? == some '/' && (afterName? name cs.tail).isSome)
  | _ => false

theorem namesTag_iff {cs : List Char} : namesTag name cs ↔ ∃ written, SameName name written ∧
    ('<' :: written <+: cs ∨ '<' :: '/' :: written <+: cs) := by
  have hafter (cs : List Char) :
      (afterName? name cs).isSome ↔ ∃ written, SameName name written ∧ written <+: cs := by
    rw [Option.isSome_iff_exists]
    constructor
    · rintro ⟨rest, h⟩
      obtain ⟨written, hsame, rfl⟩ := afterName_eq_some.mp h
      exact ⟨written, hsame, rest, rfl⟩
    · rintro ⟨written, hsame, rest, rfl⟩
      exact ⟨rest, afterName_eq_some.mpr ⟨written, hsame, rfl⟩⟩
  rw [namesTag.eq_def]
  split
  · next cs =>
    rw [Bool.or_eq_true, Bool.and_eq_true, hafter, hafter]
    have hslash : (cs.head? == some '/') = true ∧
        (∃ written, SameName name written ∧ written <+: cs.tail) ↔
          ∃ written, SameName name written ∧ '/' :: written <+: cs := by
      cases cs with
      | nil => simp
      | cons c cs =>
        by_cases hc : c = '/'
        · simp [List.cons_prefix_cons, hc]
        · simp [List.cons_prefix_cons, hc, Ne.symm hc]
    simp only [hslash, List.cons_prefix_cons, true_and, ← exists_or, ← and_or_left]
  · next hshape =>
    simp only [Bool.false_eq_true, false_iff, not_exists, not_and, not_or]
    intro written _
    constructor <;>
    · rintro ⟨rest, rfl⟩
      exact hshape _ rfl

theorem free_iff : Free name text ↔ ∀ cs ∈ text.tails, namesTag name cs = false := by
  simp only [← Bool.not_eq_true, namesTag_iff, List.mem_tails]
  constructor
  · rintro h cs hcs ⟨written, hsame, hopen | hclose⟩
    · exact (h written hsame).1 (hopen.isInfix.trans hcs.isInfix)
    · exact (h written hsame).2 (hclose.isInfix.trans hcs.isInfix)
  · intro h written hsame
    constructor <;> intro hinfix
    · obtain ⟨cs, hprefix, hsuffix⟩ := List.infix_iff_prefix_suffix.mp hinfix
      exact h cs hsuffix ⟨written, hsame, .inl hprefix⟩
    · obtain ⟨cs, hprefix, hsuffix⟩ := List.infix_iff_prefix_suffix.mp hinfix
      exact h cs hsuffix ⟨written, hsame, .inr hprefix⟩

instance (name text : List Char) : Decidable (Free name text) :=
  decidable_of_iff _ free_iff.symm

/--
What is built, to any depth, from such texts, elements of the name with contents of their own, and tags of
the name that close themselves.
-/
inductive Contents (name : List Char) : List Char → Prop where
  | text {text : List Char} (htext : Free name text) : Contents name text
  | closed {text attrs tag rest : List Char} (htext : Free name text) (htag : IsOpening name attrs tag)
      (hslash : endsWithSlash attrs) (hrest : Contents name rest) : Contents name (text ++ (tag ++ rest))
  | element {text attrs opening body closing rest : List Char} (htext : Free name text)
      (hopening : IsOpening name attrs opening) (hslash : endsWithSlash attrs = false)
      (hbody : Contents name body) (hclosing : IsClosing name closing) (hrest : Contents name rest) :
      Contents name (text ++ (opening ++ (body ++ (closing ++ rest))))

theorem SameName.not_mem (hname : Unmarked name) {written : List Char} (h : SameName name written) :
    '<' ∉ written := by
  have hafter : afterName? name (written ++ []) = some [] := afterName_eq_some.mpr ⟨written, h, rfl⟩
  obtain ⟨head, hhead, hmark, -⟩ := afterName_consumes hname hafter
  rwa [List.append_cancel_right hhead]

theorem prefix_of_prefix_append {start rest : List Char} (hstart : '<' ∉ start)
    (hrest : ∀ c ∈ rest.head?, c = '<') (h : start <+: text ++ rest) : start <+: text := by
  obtain ⟨more, hmore⟩ := h
  obtain ⟨inside, rfl, -⟩ | ⟨extra, rfl, hextra⟩ := List.append_eq_append_iff.mp hmore
  · exact List.prefix_append start inside
  · cases extra with
    | nil => rw [List.append_nil]
    | cons c extra =>
      obtain rfl : c = '<' := hrest c (by rw [hextra]; rfl)
      exact absurd (List.mem_append_right text List.mem_cons_self) hstart

theorem Free.not_beginsTag (hname : Unmarked name) {c : Char} (h : Free name (c :: text))
    {rest : List Char} (hrest : ∀ d ∈ rest.head?, d = '<') : ¬ BeginsTag name (c :: (text ++ rest)) := by
  rintro (⟨_, more, ⟨written, blanks, hsame, -, rfl⟩, heq⟩ | ⟨written, d, more, hsame, -, heq⟩)
  · simp only [List.cons_append, List.cons.injEq] at heq
    obtain ⟨rfl, heq⟩ := heq
    have hmark : '<' ∉ '/' :: written := by simp [hsame.not_mem hname]
    have hstart : '/' :: written <+: text ++ rest := by simp [heq]
    exact (h written hsame).2
      (List.cons_prefix_cons.mpr ⟨rfl, prefix_of_prefix_append hmark hrest hstart⟩).isInfix
  · obtain ⟨rfl, hbehind⟩ := List.cons.inj heq
    have hstart : written <+: text ++ rest := ⟨d :: more, hbehind.symm⟩
    exact (h written hsame).1 (List.cons_prefix_cons.mpr
      ⟨rfl, prefix_of_prefix_append (hsame.not_mem hname) hrest hstart⟩).isInfix

theorem Nested.free_append (hname : Unmarked name) (htext : Free name text) {rest : List Char}
    (hhead : ∀ c ∈ rest.head?, c = '<') (hrest : Nested name rest) : Nested name (text ++ rest) := by
  induction text with
  | nil => exact hrest
  | cons c text ih =>
    have htail : Free name text := fun written hsame =>
      ⟨fun h => (htext written hsame).1 (List.infix_cons h),
        fun h => (htext written hsame).2 (List.infix_cons h)⟩
    exact .char (htext.not_beginsTag hname hhead) (ih htail)

theorem Contents.nested (hname : Unmarked name) (h : Contents name content) : Nested name content := by
  induction h with
  | text htext => simpa using Nested.nil.free_append hname htext (by simp)
  | closed htext htag hslash _ ih =>
    refine .free_append hname htext ?_ (.closed htag hslash ih)
    obtain ⟨_, -, -, -, rfl⟩ := htag
    simp
  | element htext hopening hslash _ hclosing _ ihbody ihrest =>
    refine .free_append hname htext ?_ (.element hopening hslash ihbody hclosing ihrest)
    obtain ⟨_, -, -, -, rfl⟩ := hopening
    simp

/--
The search for the closing tag of a block whose contents are built so cuts the contents out of the text: it
finds the tag that stands behind them.
-/
theorem findClose_of_contents (hname : IsTagName name) (hraw : isRawText name = false)
    (h : Contents name content) (tail : List Char) :
    findClose? name (content ++ (closing name ++ tail)) = some (content, tail) := by
  have hunmarked := unmarked_of_isTagName hname
  refine findClose_of_holds hunmarked ?_ tail
  rw [Holds, if_neg (by simp [hraw])]
  exact h.nested hunmarked

/--
A text with lone signs and halves of tags, an element in other letter case whose attribute spells a tag, and
in it a tag that closes itself.
-/
theorem findClose_halves : ∃ content, Contents "template".toList content ∧
    content = "1 < 2 <TEMPLATE a='<template'></templat <template b/></Template\n></temp".toList ∧
    IsTagName "template".toList ∧ isRawText "template".toList = false ∧
    findClose? "template".toList (content ++ (closing "template".toList ++ "</template>".toList)) =
      some (content, "</template>".toList) := by
  have hname : IsTagName "template".toList := ⟨'t', "emplate".toList, rfl, rfl, List.all_eq_true.mp rfl⟩
  have hraw : isRawText "template".toList = false := by decide +kernel
  have hsame (written : String) (h : afterName? "template".toList written.toList = some []) :
      SameName "template".toList written.toList := by
    obtain ⟨w, hw, heq⟩ := afterName_eq_some.mp h
    rwa [heq, List.append_nil]
  have hopening : IsOpening "template".toList " a='<template'".toList "<TEMPLATE a='<template'>".toList :=
    ⟨"TEMPLATE".toList, hsame "TEMPLATE" (by decide +kernel), by decide, by simp; decide, rfl⟩
  have htag : IsOpening "template".toList " b/".toList "<template b/>".toList :=
    ⟨"template".toList, hsame "template" (by decide +kernel), by decide, by simp; decide, rfl⟩
  have hclosing : IsClosing "template".toList "</Template\n>".toList :=
    ⟨"Template".toList, ['\n'], hsame "Template" (by decide +kernel), by simp; decide, rfl⟩
  have hbody : Contents "template".toList ("</templat ".toList ++ ("<template b/>".toList ++ [])) :=
    .closed (by decide +kernel) htag rfl (.text (by decide +kernel))
  have hcontents : Contents "template".toList ("1 < 2 ".toList ++ ("<TEMPLATE a='<template'>".toList ++
      ("</templat ".toList ++ ("<template b/>".toList ++ []) ++
        ("</Template\n>".toList ++ "</temp".toList)))) :=
    .element (by decide +kernel) hopening rfl hbody hclosing (.text (by decide +kernel))
  exact ⟨_, hcontents, by decide +kernel, hname, hraw, findClose_of_contents hname hraw hcontents _⟩

end Contents

end Polyglot.Component
