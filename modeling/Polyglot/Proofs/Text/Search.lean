import Mathlib.Data.List.Infix
import Polyglot.Text.Search

/-!
Finding and cutting in texts: what is found at the front of a text is its beginning, every part is found, and
the pieces of what has been joined are what it was joined from.
-/

namespace Polyglot.Text

/--
A scan takes what its condition holds for, up to the first character for which it does not.
-/
theorem takeWhile_stop {p : Char → Bool} {cs rest : List Char} (hcs : ∀ c ∈ cs, p c)
    (hrest : ∀ c ∈ rest.head?, p c = false) :
    (cs ++ rest).takeWhile p = cs ∧ (cs ++ rest).dropWhile p = rest := by
  rw [List.takeWhile_append_of_pos hcs, List.dropWhile_append_of_pos hcs]
  cases rest with
  | nil => simp
  | cons c rest =>
    have hc : p c = false := hrest c rfl
    rw [List.takeWhile_cons_of_neg (by simp [hc]), List.dropWhile_cons_of_neg (by simp [hc])]
    simp

theorem eq_append_of_after {start cs rest : List Char} (h : after? start cs = some rest) :
    cs = start ++ rest := by
  induction start generalizing cs with
  | nil =>
    cases h
    rfl
  | cons p start ih =>
    cases cs with
    | nil => cases h
    | cons c cs =>
      rw [after?] at h
      split at h
      · next heq => rw [beq_iff_eq.mp heq, ih h, List.cons_append]
      · cases h

theorem after_append (start rest : List Char) : after? start (start ++ rest) = some rest := by
  induction start with
  | nil => rfl
  | cons p start ih => rw [List.cons_append, after?, if_pos (beq_self_eq_true p), ih]

theorem contains_of_infix {part cs : List Char} (h : part <:+: cs) : contains part cs := by
  obtain ⟨before, rest, rfl⟩ := h
  rw [List.append_assoc]
  induction before with
  | nil =>
    cases part with
    | nil => cases rest <;> rfl
    | cons p part =>
      have hafter := after_append (p :: part) rest
      rw [List.cons_append] at hafter
      rw [List.nil_append, contains, List.cons_append, cut?, hafter]
      rfl
  | cons c before ih =>
    rw [contains, List.cons_append, cut?]
    split
    · rfl
    · rw [Option.isSome_map]
      exact ih

theorem eq_append_of_cut {part cs before rest : List Char} (h : cut? part cs = some (before, rest)) :
    cs = before ++ (part ++ rest) := by
  induction cs generalizing before with
  | nil =>
    rw [cut?] at h
    split at h
    · next hempty =>
      cases h
      rw [List.isEmpty_iff.mp hempty]
      rfl
    · cases h
  | cons c cs ih =>
    rw [cut?] at h
    split at h
    · next hafter =>
      cases h
      rw [List.nil_append]
      exact eq_append_of_after hafter
    · obtain ⟨⟨before', rest'⟩, hcut, heq⟩ := Option.map_eq_some_iff.mp h
      cases heq
      rw [List.cons_append, ← ih hcut]

theorem contains_iff {part cs : List Char} : contains part cs ↔ part <:+: cs := by
  refine ⟨fun h => ?_, contains_of_infix⟩
  obtain ⟨⟨before, rest⟩, hcut⟩ := Option.isSome_iff_exists.mp h
  exact ⟨before, rest, by rw [eq_append_of_cut hcut, List.append_assoc]⟩

/--
The end mark of a comment is found where it first stands behind a text without one: no end of that text
can be taken for its beginning.
-/
theorem cut_of_not_infix {body : List Char} (h : ¬ ['-', '-', '>'] <:+: body) (rest : List Char) :
    cut? ['-', '-', '>'] (body ++ (['-', '-', '>'] ++ rest)) = some (body, rest) := by
  induction body with
  | nil => rw [List.nil_append, List.cons_append, cut?, ← List.cons_append, after_append]
  | cons c body ih =>
    have hnone : after? ['-', '-', '>'] (c :: (body ++ (['-', '-', '>'] ++ rest))) = none := by
      cases hafter : after? ['-', '-', '>'] (c :: (body ++ (['-', '-', '>'] ++ rest))) with
      | none => rfl
      | some tail =>
        have heq := eq_append_of_after hafter
        match body with
        | [] => simp at heq
        | [d] => simp at heq
        | d :: e :: body =>
          simp only [List.cons_append, List.cons.injEq] at heq
          obtain ⟨rfl, rfl, rfl, -⟩ := heq
          exact absurd (List.prefix_append ['-', '-', '>'] body).isInfix h
    rw [List.cons_append, cut?, hnone, ih fun hin => h (hin.trans (List.suffix_cons c body).isInfix),
      Option.map_some]

section Pieces

theorem join_cons (sep cs : List Char) {ps : List (List Char)} (h : ps ≠ []) :
    join sep (cs :: ps) = cs ++ sep ++ join sep ps := by
  cases ps with
  | nil => exact absurd rfl h
  | cons p ps => rfl

theorem join_append (as bs cs : List Char) (ps : List (List Char)) :
    join (as ++ bs) (cs :: ps) = join as (cs :: ps.map (bs ++ ·)) := by
  induction ps generalizing cs with
  | nil => rfl
  | cons p ps ih =>
    rw [List.map_cons, join_cons _ _ (List.cons_ne_nil _ _), join_cons _ _ (List.cons_ne_nil _ _), ih]
    cases ps with
    | nil => simp [join]
    | cons q qs => simp [join]

theorem pieces_ne_nil (sep : Char) (cs : List Char) : pieces sep cs ≠ [] := by
  fun_cases pieces sep cs with
  | case1 => exact List.cons_ne_nil _ _
  | case2 => exact List.cons_ne_nil _ _
  | case3 => exact List.cons_ne_nil _ _
  | case4 => exact List.cons_ne_nil _ _

variable {sep : Char} {cs : List Char}

theorem pieces_cons {c : Char} (h : c ≠ sep) (cs : List Char) : ∃ p ps, pieces sep cs = p :: ps ∧
    pieces sep (c :: cs) = (c :: p) :: ps := by
  obtain ⟨p, ps, hps⟩ := List.exists_cons_of_ne_nil (pieces_ne_nil sep cs)
  refine ⟨p, ps, hps, ?_⟩
  rw [pieces, if_neg (by simpa using h), hps]

theorem pieces_of_not_mem (h : sep ∉ cs) : pieces sep cs = [cs] := by
  induction cs with
  | nil => rfl
  | cons c cs ih =>
    rw [List.mem_cons, not_or] at h
    obtain ⟨p, ps, hps, hcons⟩ := pieces_cons (Ne.symm h.1) cs
    rw [ih h.2] at hps
    cases hps
    exact hcons

theorem pieces_append (as bs : List Char) :
    pieces sep (as ++ sep :: bs) = pieces sep as ++ pieces sep bs := by
  induction as with
  | nil => simp [pieces]
  | cons a as ih =>
    by_cases ha : a = sep
    · simp [pieces, ha, ih]
    · obtain ⟨p, ps, hps, hcons⟩ := pieces_cons ha as
      obtain ⟨p', ps', hps', hcons'⟩ := pieces_cons ha (as ++ sep :: bs)
      rw [ih, hps, List.cons_append] at hps'
      cases hps'
      rw [List.cons_append, hcons', hcons, List.cons_append]

theorem not_mem_of_mem_pieces {p : List Char} (h : p ∈ pieces sep cs) : sep ∉ p := by
  induction cs generalizing p with
  | nil =>
    rw [pieces, List.mem_singleton] at h
    simp [h]
  | cons c cs ih =>
    by_cases hc : c = sep
    · rw [pieces, if_pos (by simpa using hc)] at h
      rcases List.mem_cons.mp h with rfl | h
      · exact List.not_mem_nil
      · exact ih h
    · obtain ⟨q, qs, hqs, hcons⟩ := pieces_cons hc cs
      rw [hcons] at h
      rw [hqs] at ih
      rcases List.mem_cons.mp h with rfl | h
      · have hq := ih List.mem_cons_self
        rw [List.mem_cons, not_or]
        exact ⟨Ne.symm hc, hq⟩
      · exact ih (List.mem_cons_of_mem _ h)

theorem pieces_join {ps : List (List Char)} (hne : ps ≠ []) (h : ∀ p ∈ ps, sep ∉ p) :
    pieces sep (join [sep] ps) = ps := by
  induction ps with
  | nil => exact absurd rfl hne
  | cons p ps ih =>
    obtain ⟨hp, hps⟩ := List.forall_mem_cons.mp h
    cases ps with
    | nil => exact pieces_of_not_mem hp
    | cons q qs =>
      rw [join_cons _ _ (List.cons_ne_nil _ _), List.append_assoc, List.singleton_append, pieces_append,
        pieces_of_not_mem hp, ih (List.cons_ne_nil _ _) hps, List.singleton_append]

end Pieces

end Polyglot.Text
