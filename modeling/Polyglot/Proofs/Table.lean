import Polyglot.Table

/-!
Tables as maps: each key has one entry, which is what a search for it finds, and the sorted entries are
the same ones in the order of their keys.
-/

namespace Polyglot.Table

variable {κ α : Type} [DecidableEq κ] {t : Table κ α} {k l : κ} {v : α} {e : κ × α}

theorem mem_entries_set (h : e ∈ (t.set k v).entries) : e = (k, v) ∨ e ∈ t.entries := by
  obtain ⟨es⟩ := t
  simp only [set] at h
  induction es with
  | nil => exact .inl (List.mem_singleton.mp h)
  | cons e' es ih =>
    rw [place] at h
    split at h
    · rcases List.mem_cons.mp h with h | h
      · exact .inl h
      · exact .inr (List.mem_cons_of_mem _ h)
    · rcases List.mem_cons.mp h with rfl | h
      · exact .inr List.mem_cons_self
      · exact (ih h).imp id (List.mem_cons_of_mem _)

theorem mem_keys_set (h : l ∈ (t.set k v).keys) : l = k ∨ l ∈ t.keys := by
  obtain ⟨e, he, rfl⟩ := List.mem_map.mp h
  rcases mem_entries_set he with rfl | he
  · exact .inl rfl
  · exact .inr (List.mem_map_of_mem he)

theorem mem_entries_of_get? (h : t.get? k = some v) : (k, v) ∈ t.entries := by
  obtain ⟨e, he, rfl⟩ := Option.map_eq_some_iff.mp h
  obtain rfl : e.1 = k := by simpa using List.find?_some he
  exact List.mem_of_find?_eq_some he

theorem mem_entries_erase (h : e ∈ (t.erase k).entries) : e ∈ t.entries :=
  (List.mem_filter.mp h).1

theorem mem_keys_erase (h : l ∈ (t.erase k).keys) : l ∈ t.keys := by
  obtain ⟨e, he, rfl⟩ := List.mem_map.mp h
  exact List.mem_map_of_mem (mem_entries_erase he)

theorem get?_eq_none_of_has (h : t.has k = false) : t.get? k = none := by
  simpa [has] using h

theorem get?_set (t : Table κ α) (k l : κ) (v : α) :
    (t.set k v).get? l = if l = k then some v else t.get? l := by
  split
  · next h => rw [h, get?_set_self]
  · next h => exact get?_set_of_ne t v h

theorem get?_erase (t : Table κ α) (k l : κ) :
    (t.erase k).get? l = if l = k then none else t.get? l := by
  split
  · next h => rw [h, get?_erase_self]
  · next h => exact get?_erase_of_ne t h

def Distinct (t : Table κ α) : Prop :=
  t.keys.Nodup

omit [DecidableEq κ] in
theorem distinct_empty : ({} : Table κ α).Distinct :=
  List.nodup_nil

theorem Distinct.set (h : t.Distinct) (k : κ) (v : α) : (t.set k v).Distinct := by
  obtain ⟨es⟩ := t
  induction es with
  | nil => simp [Distinct, keys, Table.set, place]
  | cons e es ih =>
    have hcons := List.nodup_cons.mp h
    simp only [Distinct, keys, Table.set, place] at ih ⊢
    split
    · next hkey =>
      rw [List.map_cons, ← hkey]
      exact h
    · next hkey =>
      refine List.nodup_cons.mpr ⟨fun hmem => ?_, ih hcons.2⟩
      rcases mem_keys_set (t := ⟨es⟩) hmem with hmem | hmem
      · exact hkey hmem
      · exact hcons.1 hmem

theorem Distinct.erase (h : t.Distinct) (k : κ) : (t.erase k).Distinct :=
  h.sublist (List.filter_sublist.map _)

theorem Distinct.get?_eq_some (h : t.Distinct) : t.get? k = some v ↔ (k, v) ∈ t.entries := by
  refine ⟨mem_entries_of_get?, fun hmem => ?_⟩
  obtain ⟨es⟩ := t
  induction es with
  | nil => cases hmem
  | cons e es ih =>
    have hcons := List.nodup_cons.mp h
    rcases List.mem_cons.mp hmem with rfl | hmem
    · simp [get?]
    · have hne : e.1 ≠ k := fun heq => hcons.1 (List.mem_map.mpr ⟨_, hmem, heq.symm⟩)
      rw [get?, List.find?_cons_of_neg (by simpa using hne)]
      exact ih hcons.2 hmem

theorem place_of_notMem {es : List (κ × α)} (h : k ∉ es.map (·.1)) :
    place k v es = es ++ [(k, v)] := by
  induction es with
  | nil => rfl
  | cons e es ih =>
    simp only [List.map_cons, List.mem_cons, not_or] at h
    rw [place, if_neg (Ne.symm h.1), ih h.2, List.cons_append]

theorem ofEntries_of_nodup {es : List (κ × α)} (h : (es.map (·.1)).Nodup) :
    ofEntries es = ⟨es⟩ := by
  have hfold (before after : List (κ × α)) (h : ((before ++ after).map (·.1)).Nodup) :
      after.foldl (fun t e => t.set e.1 e.2) ⟨before⟩ = (⟨before ++ after⟩ : Table κ α) := by
    induction after generalizing before with
    | nil => rw [List.foldl_nil, List.append_nil]
    | cons e after ih =>
      have hnew : e.1 ∉ before.map (·.1) := by
        rw [List.map_append, List.nodup_append] at h
        exact fun hmem => h.2.2 _ hmem _ List.mem_cons_self rfl
      rw [List.append_cons] at h ⊢
      rw [List.foldl_cons, set, place_of_notMem hnew]
      exact ih _ h
  exact hfold [] es h

theorem Distinct.copy (h : t.Distinct) : t.copy = t :=
  ofEntries_of_nodup h

omit [DecidableEq κ] in
theorem isEmpty_iff : t.isEmpty ↔ t.entries = [] :=
  List.isEmpty_iff

theorem get?_of_isEmpty (h : t.isEmpty) : t.get? k = none := by
  rw [get?, isEmpty_iff.mp h]
  rfl

section Sorted

variable {t : Table String α}

theorem perm_sorted (t : Table String α) : t.sorted.Perm t.entries :=
  List.mergeSort_perm _ _

theorem mem_sorted {e : String × α} : e ∈ t.sorted ↔ e ∈ t.entries :=
  t.perm_sorted.mem_iff

theorem Distinct.pairwise_sorted (h : t.Distinct) : t.sorted.Pairwise (·.1 < ·.1) := by
  have hle : t.sorted.Pairwise (·.1 ≤ ·.1) := by
    refine (List.pairwise_mergeSort ?_ ?_ t.entries).imp of_decide_eq_true
    · simp only [decide_eq_true_eq]
      exact fun a b c hab hbc => String.le_trans hab hbc
    · intro a b
      simpa using String.le_total a.1 b.1
  have hne : t.sorted.Pairwise (·.1 ≠ ·.1) :=
    List.pairwise_map.mp ((t.perm_sorted.map Prod.fst).nodup_iff.mpr h)
  exact hle.imp₂ (fun a b hle hne => Std.lt_of_le_of_ne hle hne) hne

end Sorted

end Polyglot.Table
