import Mathlib.Data.List.Nodup

/-!
Names without their repetitions.
-/

namespace Polyglot.Text

theorem nodup_eraseDups (names : List String) : names.eraseDups.Nodup := by
  induction hlength : names.length using Nat.strongRecOn generalizing names with
  | ind n ih =>
    subst hlength
    cases names with
    | nil => exact .nil
    | cons name names =>
      rw [List.eraseDups_cons, List.nodup_cons]
      refine ⟨by simp [List.mem_eraseDups], ih _ ?_ _ rfl⟩
      exact Nat.lt_succ_of_le (List.length_filter_le _ _)

theorem eraseDups_concat (names : List String) (name : String) : (names ++ [name]).eraseDups =
    names.eraseDups ++ if name ∈ names then [] else [name] := by
  rw [List.eraseDups_append]
  by_cases h : name ∈ names
  · rw [if_pos h]
    simp [List.removeAll, h]
  · rw [if_neg h]
    simp [List.removeAll, h, List.eraseDups_cons]

theorem length_eraseDups_le (names : List String) : names.eraseDups.length ≤ names.length := by
  induction hlength : names.length using Nat.strongRecOn generalizing names with
  | ind n ih =>
    subst hlength
    cases names with
    | nil => exact Nat.le_refl _
    | cons name names =>
      have hfilter := List.length_filter_le (fun other => !other == name) names
      rw [List.eraseDups_cons, List.length_cons, List.length_cons]
      exact Nat.succ_le_succ (Nat.le_trans (ih _ (Nat.lt_succ_of_le hfilter) _ rfl) hfilter)

theorem nodup_of_length_eraseDups {names : List String} (h : names.eraseDups.length = names.length) :
    names.Nodup := by
  induction names with
  | nil => exact .nil
  | cons name names ih =>
    rw [List.eraseDups_cons, List.length_cons, List.length_cons] at h
    have hfilter := List.length_filter_le (fun other => !other == name) names
    have hle := length_eraseDups_le (names.filter fun other => !other == name)
    have hall : names.filter (fun other => !other == name) = names :=
      List.filter_sublist.eq_of_length (by omega)
    rw [hall] at h
    refine List.nodup_cons.mpr ⟨fun hmem => ?_, ih (by omega)⟩
    rw [← hall] at hmem
    simp at hmem

end Polyglot.Text
