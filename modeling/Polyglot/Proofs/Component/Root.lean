import Mathlib.Data.List.DropRight
import Polyglot.Component.Root
import Polyglot.Proofs.Component.Nesting
import Polyglot.Proofs.Text.Search

/-!
The attribute that is put into the tag of a root element: where it goes, when it is found there again,
and what becomes of the name of the element.
-/

namespace Polyglot.Component

variable {id markup tag rest out : List Char}

/--
A name in a tag ends in front of a blank, a slash, a closing bracket or an equals sign.
-/
def EndsName (rest : List Char) : Prop :=
  ∀ c, rest.head? = some c → Text.isBlank c ∨ c = '/' ∨ c = '>' ∨ c = '='

def Carries (id markup : List Char) : Prop :=
  ∃ tag blanks rest, rootTag? markup = some (tag, blanks ++ id ++ rest) ∧ blanks ≠ [] ∧
    (∀ c ∈ blanks, Text.isBlank c) ∧ EndsName rest

/--
Behind blanks there is the given name of an attribute, and what follows it ends a name.
-/
def Marked (id rest : List Char) : Prop :=
  ∃ blanks tail, rest = blanks ++ id ++ tail ∧ blanks ≠ [] ∧ (∀ c ∈ blanks, Text.isBlank c) ∧
    tail ≠ [] ∧ EndsName tail

theorem marked_of_startsWithAttribute (h : startsWithAttribute id rest) : Marked id rest := by
  obtain ⟨k, hk, hid⟩ := List.any_eq_true.mp h
  split at hid
  · next tail hafter =>
    have hle : k + 1 ≤ (rest.takeWhile Text.isBlank).length := List.mem_range.mp hk
    have htake : rest.take (k + 1) = (rest.takeWhile Text.isBlank).take (k + 1) := by
      obtain ⟨more, hmore⟩ := List.takeWhile_prefix Text.isBlank (l := rest)
      conv_lhs => rw [← hmore]
      exact List.take_append_of_le_length hle
    refine ⟨rest.take (k + 1), tail, ?_, ?_, ?_, ?_, ?_⟩
    · rw [List.append_assoc, ← Text.eq_append_of_after hafter, List.take_append_drop]
    · rw [htake, ← List.length_pos_iff, List.length_take]
      omega
    · intro c hc
      rw [htake] at hc
      exact List.mem_takeWhile_imp (List.mem_of_mem_take hc)
    · rintro rfl
      cases hid
    · intro c hc
      rw [hc] at hid
      simpa [or_assoc] using hid
  · cases hid

theorem startsWithAttribute_of_marked (h : Marked id rest) : startsWithAttribute id rest := by
  obtain ⟨blanks, tail, rfl, hne, hblanks, htail, hends⟩ := h
  obtain ⟨c, tail, rfl⟩ := List.exists_cons_of_ne_nil htail
  have hlength : 0 < blanks.length := List.length_pos_iff.mpr hne
  refine List.any_eq_true.mpr ⟨blanks.length - 1, ?_, ?_⟩
  · rw [List.mem_range, List.append_assoc, List.takeWhile_append_of_pos hblanks, List.length_append]
    omega
  · rw [Nat.sub_add_cancel hlength, List.append_assoc, List.drop_left, Text.after_append]
    simpa [or_assoc] using hends c rfl

theorem startsWithAttribute_iff : startsWithAttribute id rest ↔ Marked id rest :=
  ⟨marked_of_startsWithAttribute, startsWithAttribute_of_marked⟩

theorem Marked.exists_blank (h : Marked id rest) : ∃ c more, rest = c :: more ∧ Text.isBlank c := by
  obtain ⟨blanks, tail, rfl, hne, hblanks, -⟩ := h
  obtain ⟨c, blanks, rfl⟩ := List.exists_cons_of_ne_nil hne
  exact ⟨c, _, rfl, hblanks c List.mem_cons_self⟩

theorem marked_cons_iff (hid : ∀ c ∈ id, isTagChar c) :
    Marked id (' ' :: (id ++ rest)) ↔ rest ≠ [] ∧ EndsName rest := by
  constructor
  · rintro ⟨blanks, tail, heq, hne, hblanks, htail, hends⟩
    obtain ⟨b, blanks, rfl⟩ := List.exists_cons_of_ne_nil hne
    obtain ⟨-, heq⟩ := List.cons.inj heq
    have hmore := fun c hc => hblanks c (List.mem_cons_of_mem b hc)
    cases blanks with
    | nil =>
      obtain rfl := List.append_cancel_left heq
      exact ⟨htail, hends⟩
    | cons c blanks =>
      have hc := hmore c List.mem_cons_self
      cases id with
      | nil =>
        obtain rfl : rest = c :: (blanks ++ tail) := by simpa using heq
        exact ⟨by simp, fun d hd => .inl (by cases hd; exact hc)⟩
      | cons d id =>
        obtain ⟨rfl, -⟩ := List.cons.inj heq
        have hd := hid d List.mem_cons_self
        rw [isTagChar_of_isBlank hc] at hd
        cases hd
  · rintro ⟨hne, hends⟩
    exact ⟨[' '], rest, rfl, by simp, by simp [Text.isBlank], hne, hends⟩

theorem rootTag_eq_some_iff : rootTag? markup = some (tag, rest) ↔
    Text.trimLeft markup = '<' :: (tag ++ rest) ∧ IsTagName tag ∧ ∀ c ∈ rest.head?, isTagChar c = false := by
  constructor
  · intro h
    rw [rootTag?] at h
    split at h
    · next cs hcs =>
      obtain ⟨rfl, hname⟩ := takeTagName_eq_some_iff.mp h
      exact ⟨hcs, hname⟩
    · cases h
  · rintro ⟨htrim, hname⟩
    rw [rootTag?, htrim]
    exact takeTagName_eq_some_iff.mpr ⟨rfl, hname⟩

theorem rootTag_tagged (h : IsTagName tag) (id rest : List Char) :
    rootTag? ('<' :: (tag ++ ' ' :: (id ++ rest))) = some (tag, ' ' :: (id ++ rest)) := by
  have hopen : Text.isBlank '<' = false := rfl
  have hblank : isTagChar ' ' = false := rfl
  rw [rootTag_eq_some_iff, Text.trimLeft, List.dropWhile_cons_of_neg (by simp [hopen])]
  exact ⟨rfl, h, by simp [hblank]⟩

theorem injectScope_eq_some_iff : injectScope? id markup = some out ↔ ∃ tag rest,
    rootTag? markup = some (tag, rest) ∧
      (Marked id rest ∧ out = Text.trimLeft markup ∨
        ¬ Marked id rest ∧ out = '<' :: (tag ++ ' ' :: (id ++ rest))) := by
  have hplace (tag rest : List Char) :
      (if startsWithAttribute id rest then Text.trimLeft markup else '<' :: tag ++ ' ' :: id ++ rest) =
        out ↔ Marked id rest ∧ out = Text.trimLeft markup ∨
          ¬ Marked id rest ∧ out = '<' :: (tag ++ ' ' :: (id ++ rest)) := by
    have hassoc : '<' :: tag ++ ' ' :: id ++ rest = '<' :: (tag ++ ' ' :: (id ++ rest)) := by simp
    rw [hassoc]
    by_cases h : Marked id rest <;> simp [startsWithAttribute_iff, h, @eq_comm _ out]
  rw [injectScope?, Option.map_eq_some_iff, Prod.exists]
  simp only [hplace]

/--
The id that is put behind the name of the root element is its first attribute, unless the name of the
element goes on behind what is taken for it.
-/
theorem carries_of_injectScope (h : injectScope? id markup = some out) :
    ∃ tag rest, rootTag? markup = some (tag, rest) ∧ (EndsName rest → Carries id out) ∧
      (¬ EndsName rest → out = '<' :: tag ++ ' ' :: id ++ rest) := by
  obtain ⟨tag, rest, hroot, ⟨hmarked, rfl⟩ | ⟨-, rfl⟩⟩ := injectScope_eq_some_iff.mp h
  · refine ⟨tag, rest, hroot, fun _ => ?_, fun hnot => absurd ?_ hnot⟩
    · obtain ⟨blanks, tail, rfl, hne, hblanks, -, hends⟩ := hmarked
      refine ⟨tag, blanks, tail, ?_, hne, hblanks, hends⟩
      rw [rootTag?, Text.trimLeft, Text.trimLeft, List.dropWhile_idempotent]
      exact hroot
    · obtain ⟨c, more, rfl, hc⟩ := hmarked.exists_blank
      rintro d ⟨⟩
      exact .inl hc
  · refine ⟨tag, rest, hroot, fun hends => ?_, fun _ => by simp⟩
    have htagged := rootTag_tagged (rootTag_eq_some_iff.mp hroot).2.1 id rest
    exact ⟨tag, [' '], rest, htagged, by simp, by simp [Text.isBlank], hends⟩

theorem injectScope_again_iff (hid : ∀ c ∈ id, isTagChar c) (h : injectScope? id markup = some out)
    (hroot : rootTag? markup = some (tag, rest)) :
    injectScope? id out = some out ↔ rest ≠ [] ∧ EndsName rest := by
  obtain ⟨tag', rest', hroot', hout⟩ := injectScope_eq_some_iff.mp h
  obtain ⟨rfl, rfl⟩ := Prod.mk.inj (Option.some.inj (hroot'.symm.trans hroot))
  rcases hout with ⟨hmarked, rfl⟩ | ⟨-, rfl⟩
  · have htrim : Text.trimLeft (Text.trimLeft markup) = Text.trimLeft markup :=
      List.dropWhile_idempotent _ _
    have hagain : injectScope? id (Text.trimLeft markup) = some (Text.trimLeft markup) := by
      rw [injectScope_eq_some_iff, rootTag?, htrim]
      exact ⟨tag', rest', hroot, .inl ⟨hmarked, rfl⟩⟩
    obtain ⟨c, more, rfl, hc⟩ := hmarked.exists_blank
    exact iff_of_true hagain ⟨by simp, by rintro d ⟨⟩; exact .inl hc⟩
  · have htagged := rootTag_tagged (rootTag_eq_some_iff.mp hroot).2.1 id rest'
    rw [← marked_cons_iff hid, injectScope_eq_some_iff]
    constructor
    · rintro ⟨_, _, hfound, ⟨hmarked, -⟩ | ⟨-, heq⟩⟩
      · obtain ⟨rfl, rfl⟩ := Prod.mk.inj (Option.some.inj (htagged.symm.trans hfound))
        exact hmarked
      · -- With the id put in once more the markup would be longer.
        obtain ⟨rfl, rfl⟩ := Prod.mk.inj (Option.some.inj (htagged.symm.trans hfound))
        have hlength := congrArg List.length heq
        simp only [List.length_cons, List.length_append] at hlength
        omega
    · intro hmarked
      exact ⟨_, _, htagged, .inl ⟨hmarked, by simp [Text.trimLeft, Text.isBlank]⟩⟩

/--
The full name of the element that a markup begins with: all up to a blank, a slash or a closing bracket.
-/
def rootName (markup : List Char) : List Char :=
  ((Text.trimLeft markup).drop 1).takeWhile fun c => !(Text.isBlank c || c == '/' || c == '>')

/--
What ends the full name of an element.
-/
def ClosesName (rest : List Char) : Prop :=
  ∀ c ∈ rest.head?, Text.isBlank c ∨ c = '/' ∨ c = '>'

theorem rootName_eq_append (hroot : rootTag? markup = some (tag, rest)) :
    rootName markup = tag ++ rest.takeWhile fun c => !(Text.isBlank c || c == '/' || c == '>') := by
  obtain ⟨htrim, htag, -⟩ := rootTag_eq_some_iff.mp hroot
  rw [rootName, htrim, List.drop_succ_cons, List.drop_zero, List.takeWhile_append_of_pos]
  intro c hc
  have hname := isTagChar_of_mem htag hc
  have hblank : Text.isBlank c = false := by
    rw [← Bool.not_eq_true]
    intro hblank
    rw [isTagChar_of_isBlank hblank] at hname
    cases hname
  have hslash : c ≠ '/' := by rintro rfl; exact absurd hname (by decide)
  have hclose : c ≠ '>' := by rintro rfl; exact absurd hname (by decide)
  simp [hblank, hslash, hclose]

theorem rootName_eq_iff (hroot : rootTag? markup = some (tag, rest)) :
    rootName markup = tag ↔ ClosesName rest := by
  rw [rootName_eq_append hroot, List.append_right_eq_self, ClosesName]
  cases rest with
  | nil => simp
  | cons c rest => simp [List.takeWhile_cons, or_iff_not_imp_left]

theorem closesName_of_injectScope (h : injectScope? id markup = some out)
    (hroot : rootTag? markup = some (tag, rest)) :
    ∃ rest', rootTag? out = some (tag, rest') ∧ ClosesName rest' := by
  obtain ⟨tag', rest', hroot', hout⟩ := injectScope_eq_some_iff.mp h
  obtain ⟨rfl, rfl⟩ := Prod.mk.inj (Option.some.inj (hroot'.symm.trans hroot))
  rcases hout with ⟨hmarked, rfl⟩ | ⟨-, rfl⟩
  · obtain ⟨c, more, rfl, hc⟩ := hmarked.exists_blank
    refine ⟨c :: more, ?_, by rintro d ⟨⟩; exact .inl hc⟩
    rw [rootTag?, Text.trimLeft, Text.trimLeft, List.dropWhile_idempotent]
    exact hroot'
  · refine ⟨_, rootTag_tagged (rootTag_eq_some_iff.mp hroot').2.1 id rest', ?_⟩
    rintro d ⟨⟩
    exact .inl (by decide)

/--
An injected markup is the markup without leading blanks, in which at most a blank and the id have been
put behind what is taken for the name of the root element. Injecting again changes nothing, and the
element keeps its name, exactly as far as the name does not go on there.
-/
theorem injectScope_root (hid : ∀ c ∈ id, isTagChar c) (h : injectScope? id markup = some out) :
    ∃ tag rest, Text.trimLeft markup = '<' :: (tag ++ rest) ∧ IsTagName tag ∧
      (∀ c ∈ rest.head?, isTagChar c = false) ∧
      (Marked id rest ∧ out = '<' :: (tag ++ rest) ∨
        ¬ Marked id rest ∧ out = '<' :: (tag ++ ' ' :: (id ++ rest))) ∧
      (injectScope? id out = some out ↔ rest ≠ [] ∧ EndsName rest) ∧
      rootName out = tag ∧ (rootName markup = tag ↔ ClosesName rest) := by
  obtain ⟨tag, rest, hroot, hout⟩ := injectScope_eq_some_iff.mp h
  obtain ⟨htrim, htag, hrest⟩ := rootTag_eq_some_iff.mp hroot
  obtain ⟨rest', hroot', hcloses⟩ := closesName_of_injectScope h hroot
  rw [htrim] at hout
  exact ⟨tag, rest, htrim, htag, hrest, hout, injectScope_again_iff hid h hroot,
    (rootName_eq_iff hroot').mpr hcloses, rootName_eq_iff hroot⟩

/--
The id is put into the middle of a name with a colon, and a second time when the markup is injected again.
-/
theorem injectScope_prefixed : ∃ out, injectScope? ['d'] " <svg:g>".toList = some out ∧
    out = "<svg d:g>".toList ∧ rootName " <svg:g>".toList ≠ rootName out ∧
    injectScope? ['d'] out ≠ some out := by
  have hid : ∀ c ∈ ['d'], isTagChar c := by
    simp only [List.forall_mem_singleton]
    decide
  have hinject : injectScope? ['d'] " <svg:g>".toList = some "<svg d:g>".toList := by
    decide
  obtain ⟨tag, rest, htrim, htag, hrest, -, hagain, hname, hkept⟩ := injectScope_root hid hinject
  obtain ⟨rfl, rfl⟩ : "svg".toList = tag ∧ ":g>".toList = rest := by
    have hroot : rootTag? " <svg:g>".toList = some ("svg".toList, ":g>".toList) := by
      decide
    have hsame := hroot.symm.trans (rootTag_eq_some_iff.mpr ⟨htrim, htag, hrest⟩)
    exact Prod.mk.inj (Option.some.inj hsame)
  refine ⟨_, hinject, rfl, fun hsame => ?_, fun hsame => ?_⟩
  · have hcloses := hkept.mp (hsame.trans hname) ':' rfl
    exact absurd hcloses (by decide)
  · have hends := (hagain.mp hsame).2 ':' rfl
    exact absurd hends (by decide)

end Polyglot.Component
