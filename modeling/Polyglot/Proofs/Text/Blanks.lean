import Mathlib.Data.List.DropRight
import Mathlib.Data.List.TakeWhile
import Polyglot.Text.Character

/-!
Texts without their blank ends: what is left is nothing or begins and ends with characters that are not
blank, and blanks around a text do not change what is left of it.
-/

namespace Polyglot.Text

theorem dropWhile_append_of_eq_self {α : Type} {p : α → Bool} {as bs : List α} (hne : as ≠ [])
    (h : as.dropWhile p = as) : (as ++ bs).dropWhile p = as ++ bs := by
  cases as with
  | nil => exact absurd rfl hne
  | cons a as =>
    have ha : ¬ p a := by simpa using List.dropWhile_eq_self_iff.mp h (Nat.succ_pos _)
    rw [List.cons_append, List.dropWhile_cons_of_neg ha]

theorem dropWhile_eq_self {p : Char → Bool} {cs : List Char} :
    cs.dropWhile p = cs ↔ ∀ c ∈ cs.head?, p c = false := by
  cases cs with
  | nil => simp
  | cons c cs => simp [List.dropWhile_eq_self_iff]

/--
A text that is not empty and has no blank ends.
-/
structure Tight (cs : List Char) : Prop where
  nonempty : cs ≠ []
  left : cs.dropWhile isBlank = cs
  right : cs.reverse.dropWhile isBlank = cs.reverse

theorem tight_iff {cs : List Char} : Tight cs ↔ cs ≠ [] ∧ (∀ c ∈ cs.head?, isBlank c = false) ∧
    ∀ c ∈ cs.getLast?, isBlank c = false := by
  rw [← dropWhile_eq_self, ← List.head?_reverse, ← dropWhile_eq_self]
  exact ⟨fun h => ⟨h.nonempty, h.left, h.right⟩, fun ⟨hne, hleft, hright⟩ => ⟨hne, hleft, hright⟩⟩

theorem tight_of_trim {cs : List Char} (hne : cs ≠ []) (h : trim cs = cs) : Tight cs := by
  have hle : (trim cs).length ≤ (trimLeft cs).length :=
    (List.rdropWhile_prefix isBlank (trimLeft cs)).length_le
  have hsuffix : trimLeft cs <:+ cs := List.dropWhile_suffix isBlank
  have hleft : trimLeft cs = cs := by
    apply hsuffix.eq_of_length
    rw [h] at hle
    exact Nat.le_antisymm hsuffix.length_le hle
  rw [trim, hleft] at h
  exact ⟨hne, hleft, List.reverse_eq_iff.mp h⟩

theorem Tight.append {as bs cs : List Char} (ha : Tight as) (hc : Tight cs) :
    Tight (as ++ bs ++ cs) where
  nonempty := by simp [ha.nonempty]
  left := by rw [List.append_assoc, dropWhile_append_of_eq_self ha.nonempty ha.left]
  right := by
    have hne : cs.reverse ≠ [] := by simpa using hc.nonempty
    rw [List.reverse_append, dropWhile_append_of_eq_self hne hc.right]

section Blanks

variable {as bs cs : List Char}

theorem trimLeft_blanks_cons (h : ∀ c ∈ bs, isBlank c) {c : Char} (hc : isBlank c = false)
    (cs : List Char) : trimLeft (bs ++ c :: cs) = c :: cs := by
  rw [trimLeft, List.dropWhile_append_of_pos h, List.dropWhile_cons_of_neg (by simp [hc])]

theorem trimRight_concat {c : Char} (hc : isBlank c = false) : trimRight (cs ++ [c]) = cs ++ [c] := by
  rw [trimRight, List.reverse_append, List.reverse_singleton, List.singleton_append,
    List.dropWhile_cons_of_neg (by simp [hc]), List.reverse_cons, List.reverse_reverse]

theorem trimRight_append_blanks (h : ∀ c ∈ bs, isBlank c) : trimRight (cs ++ bs) = trimRight cs := by
  rw [trimRight, List.reverse_append,
    List.dropWhile_append_of_pos fun c hc => h c (List.mem_reverse.mp hc), trimRight]

theorem trim_blanks_append (h : ∀ c ∈ as, isBlank c) : trim (as ++ bs) = trim bs := by
  rw [trim, trimLeft, List.dropWhile_append_of_pos h]
  rfl

theorem trim_append_blanks (h : ∀ c ∈ bs, isBlank c) : trim (as ++ bs) = trim as := by
  rw [trim, trim, trimLeft, trimLeft, List.dropWhile_append]
  split
  · next hnone =>
    rw [List.isEmpty_iff.mp hnone, List.dropWhile_eq_nil_iff.mpr h]
  · exact trimRight_append_blanks h

theorem Tight.trim_append (hb : Tight bs) (ha : ∀ c ∈ as, isBlank c) (hc : ∀ c ∈ cs, isBlank c) :
    trim (as ++ bs ++ cs) = bs := by
  rw [trim_append_blanks hc, trim_blanks_append ha, trim, trimLeft, hb.left, trimRight, hb.right,
    List.reverse_reverse]

theorem blank_of_mem_blankEnd {c : Char} (h : c ∈ blankEnd cs) : isBlank c :=
  List.mem_takeWhile_imp (List.mem_reverse.mp h)

theorem Tight.blankEnd_append (hb : Tight bs) (hc : ∀ c ∈ cs, isBlank c) :
    blankEnd (bs ++ cs) = cs := by
  have hnone : bs.reverse.takeWhile isBlank = [] := by
    have := List.takeWhile_append_dropWhile (p := isBlank) (l := bs.reverse)
    rwa [hb.right, List.append_left_eq_self] at this
  rw [blankEnd, List.reverse_append,
    List.takeWhile_append_of_pos fun c h => hc c (List.mem_reverse.mp h), hnone, List.append_nil,
    List.reverse_reverse]

theorem blanks_trim_blanks (cs : List Char) : ∃ as bs, cs = as ++ trim cs ++ bs ∧
    (∀ c ∈ as, isBlank c) ∧ ∀ c ∈ bs, isBlank c := by
  refine ⟨cs.takeWhile isBlank, blankEnd (trimLeft cs), ?_, fun c hc => List.mem_takeWhile_imp hc,
    fun c hc => blank_of_mem_blankEnd hc⟩
  rw [trim, List.append_assoc, trimRight_append_blankEnd, trimLeft, List.takeWhile_append_dropWhile]

theorem trim_trim (cs : List Char) : trim (trim cs) = trim cs := by
  obtain ⟨as, bs, heq, has, hbs⟩ := blanks_trim_blanks cs
  conv_rhs => rw [heq, trim_append_blanks hbs, trim_blanks_append has]

theorem tight_trim (h : trim cs ≠ []) : Tight (trim cs) :=
  tight_of_trim h (trim_trim cs)

theorem allBlank_iff : allBlank cs ↔ ∀ c ∈ cs, isBlank c :=
  List.all_eq_true

theorem trim_eq_nil : trim cs = [] ↔ allBlank cs := by
  obtain ⟨as, bs, heq, has, hbs⟩ := blanks_trim_blanks cs
  rw [allBlank_iff]
  constructor
  · intro hnil
    rw [heq, hnil, List.append_nil]
    exact fun c hc => (List.mem_append.mp hc).elim (has c) (hbs c)
  · intro hall
    have htrim : trim (cs ++ []) = trim [] := trim_blanks_append hall
    rwa [List.append_nil] at htrim

end Blanks

section Strings

variable {s : String}

theorem trimmed_trimmed (s : String) : trimmed (trimmed s) = trimmed s := by
  rw [trimmed, trimmed, String.toList_ofList, trim_trim]

theorem isEmpty_trimmed (s : String) : (trimmed s).isEmpty = allBlank s.toList := by
  rw [Bool.eq_iff_iff, ← trim_eq_nil, trimmed, String.isEmpty_iff, ← String.toList_eq_nil_iff,
    String.toList_ofList]

end Strings

end Polyglot.Text
