import Polyglot.Language

/-!
How names of languages are spelled: as words of ASCII letters, digits and underscores, and one line feed may
follow such a word.
-/

namespace Polyglot

/--
A text that is not empty, of ASCII letters, digits and underscores alone.
-/
def IsWord (s : String) : Prop :=
  s ≠ "" ∧ ∀ c ∈ s.toList, ('a' ≤ c ∧ c ≤ 'z') ∨ ('A' ≤ c ∧ c ≤ 'Z') ∨ ('0' ≤ c ∧ c ≤ '9') ∨ c = '_'

/--
A word, or a word and a line feed.
-/
def Spelled (s : String) : Prop :=
  IsWord s ∨ ∃ word, IsWord word ∧ s = word ++ "\n"

namespace Language

theorem isNameChar_iff {c : Char} : isNameChar c ↔
    ('a' ≤ c ∧ c ≤ 'z') ∨ ('A' ≤ c ∧ c ≤ 'Z') ∨ ('0' ≤ c ∧ c ≤ '9') ∨ c = '_' := by
  simp [isNameChar, Text.isAsciiLetter, Text.isAsciiDigit, or_assoc]

theorem isWord_iff {s : String} : IsWord s ↔ s.toList ≠ [] ∧ ∀ c ∈ s.toList, isNameChar c := by
  simp only [IsWord, isNameChar_iff, ne_eq, String.toList_eq_nil_iff]

theorem body_of_isWord {s : String} (h : IsWord s) : body s.toList = s.toList := by
  rw [body, if_neg]
  intro hlast
  obtain ⟨front, hfront⟩ := List.getLast?_eq_some_iff.mp (beq_iff_eq.mp hlast)
  have := (isWord_iff.mp h).2 '\n' (by simp [hfront])
  exact absurd this (by decide)

theorem body_append_line (s : String) : body (s ++ "\n").toList = s.toList := by
  simp [body]

theorem isName_iff {s : String} : isName s ↔ Spelled s := by
  have hname : isName s ↔ IsWord (String.ofList (body s.toList)) := by
    simp [isName, isWord_iff]
  rw [hname]
  constructor
  · intro h
    rw [body] at h
    split at h
    · next hlast =>
      obtain ⟨front, hfront⟩ := List.getLast?_eq_some_iff.mp (beq_iff_eq.mp hlast)
      refine .inr ⟨_, h, String.toList_injective ?_⟩
      simp [hfront]
    · rw [String.ofList_toList] at h
      exact .inl h
  · rintro (h | ⟨word, h, rfl⟩)
    · rwa [body_of_isWord h, String.ofList_toList]
    · rwa [body_append_line, String.ofList_toList]

theorem isNameValue_iff {v : Value} : isNameValue v ↔ ∃ name, v = .str name ∧ Spelled name := by
  cases v with
  | str s => simp [isNameValue, isName_iff]
  | _ => simp [isNameValue]

theorem ofValue_eq_ok_iff {what name : String} {v : Value} :
    ofValue what v = .ok name ↔ v = .str name ∧ Spelled name := by
  constructor
  · intro h
    rw [ofValue.eq_def] at h
    split at h
    · split at h
      · next hname =>
        cases h
        exact ⟨rfl, isName_iff.mp hname⟩
      · cases h
    · cases h
    · cases h
  · rintro ⟨rfl, h⟩
    rw [ofValue, if_pos (isName_iff.mpr h)]

end Language

end Polyglot
