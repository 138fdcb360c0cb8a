import Polyglot.Location.World
import Polyglot.Proofs.Location.Normal

/-!
Saving a text: the file that it is saved to holds it, and every other file is as it was. A resolved path
of names is what its written form is resolved to.
-/

namespace Polyglot

/--
Every part of the path is the name of a file or directory.
-/
def AbsPath.Named (p : AbsPath) : Prop :=
  ∀ n ∈ p, Path.IsName n.toList

namespace AbsPath

variable {p base : AbsPath}

theorem toList_text_cons (n : String) (p : AbsPath) :
    (text (n :: p)).toList = '/' :: (n.toList ++ (text p).toList) := by
  have hcons : text (n :: p) = "/" ++ n ++ text p := by
    simp [text, String.join_cons]
  rw [hcons, String.toList_append, String.toList_append]
  simp

theorem pieces_text (hp : p.Named) {front : List Char} (hfront : '/' ∉ front) :
    Text.pieces '/' (front ++ p.text.toList) = front :: p.map String.toList := by
  induction p generalizing front with
  | nil =>
    have hempty : (text []).toList = [] := rfl
    rw [hempty, List.append_nil, Text.pieces_of_not_mem hfront, List.map_nil]
  | cons n p ih =>
    obtain ⟨hn, hp⟩ := List.forall_mem_cons.mp hp
    rw [toList_text_cons, Text.pieces_append, Text.pieces_of_not_mem hfront, ih hp hn.whole, List.map_cons,
      List.singleton_append]

theorem plainParts_text (hp : p.Named) : Path.plainParts p.text.toList = p.map String.toList := by
  have hpieces : Text.pieces '/' ([] ++ p.text.toList) = [] :: p.map String.toList :=
    pieces_text hp List.not_mem_nil
  rw [List.nil_append] at hpieces
  rw [Path.plainParts, hpieces, List.filter_cons, if_neg (by simp), List.filter_eq_self]
  intro n hn
  obtain ⟨m, hm, rfl⟩ := List.mem_map.mp hn
  simpa using ⟨fun h => (hp m hm).nonempty (by simp [h]), (hp m hm).notHere⟩

theorem foldl_names (hp : p.Named) (front : AbsPath) :
    (p.map String.toList).foldl (fun at_ part =>
      if part == ['.', '.'] then at_.dropLast else at_ ++ [String.ofList part]) front = front ++ p := by
  induction p generalizing front with
  | nil => exact (List.append_nil front).symm
  | cons n p ih =>
    obtain ⟨hn, hp⟩ := List.forall_mem_cons.mp hp
    rw [List.map_cons, List.foldl_cons, if_neg (by simpa using hn.notUp), String.ofList_toList, ih hp,
      List.append_assoc, List.singleton_append]

theorem resolve_text (hp : p.Named) : resolve [] p.text = p := by
  rw [resolve]
  simp only [ite_self, plainParts_text hp]
  rw [foldl_names hp, List.nil_append]

theorem Named.resolve (hbase : base.Named) (s : String) : (base.resolve s).Named := by
  have hstart : AbsPath.Named (if Path.isAbsolute s.toList then [] else base) := by
    split
    · exact fun n hn => nomatch hn
    · exact hbase
  have hparts : ∀ q ∈ Path.plainParts s.toList, q ≠ [] ∧ q ≠ ['.'] ∧ '/' ∉ q := by
    intro q hq
    obtain ⟨hpiece, hplain⟩ := List.mem_filter.mp hq
    have hne : q ≠ [] ∧ q ≠ ['.'] := by simpa using hplain
    exact ⟨hne.1, hne.2, Text.not_mem_of_mem_pieces hpiece⟩
  rw [AbsPath.resolve]
  generalize (if Path.isAbsolute s.toList then [] else base) = start at hstart ⊢
  generalize Path.plainParts s.toList = parts at hparts ⊢
  induction parts generalizing start with
  | nil => exact hstart
  | cons q qs ih =>
    obtain ⟨⟨hne, hhere, hwhole⟩, hqs⟩ := List.forall_mem_cons.mp hparts
    refine ih _ ?_ hqs
    dsimp only
    split
    · exact fun n hn => hstart n (List.dropLast_subset _ hn)
    · next hup =>
      intro n hn
      rcases List.mem_append.mp hn with hn | hn
      · exact hstart n hn
      · rw [List.mem_singleton.mp hn, String.toList_ofList]
        exact ⟨hne, hhere, by simpa using hup, hwhole⟩

end AbsPath

namespace World

variable {w w' : World} {p q : AbsPath} {e : Entry}

/--
Every path in the world is a path of names.
-/
def Named (w : World) : Prop :=
  ∀ e ∈ w.entries, e.1.Named

theorem entry_set_self (w : World) (p : AbsPath) (e : Entry) : entry? (w.set p e) p = some e := by
  have hplace (entries : List (AbsPath × Entry)) :
      (set.place p e entries).find? (fun d => d.1 == p) = some (p, e) := by
    induction entries with
    | nil => simp [set.place]
    | cons d entries ih =>
      obtain ⟨q, d⟩ := d
      rw [set.place]
      by_cases hq : q = p
      · simp [hq]
      · simp [hq, ih]
  rw [ entry?, set, hplace]
  rfl

theorem entry_set_of_ne (h : q ≠ p) : entry? (w.set p e) q = entry? w q := by
  have hplace (entries : List (AbsPath × Entry)) :
      (set.place p e entries).find? (fun d => d.1 == q) = entries.find? fun d => d.1 == q := by
    induction entries with
    | nil => simp [set.place, Ne.symm h]
    | cons d entries ih =>
      obtain ⟨r, d⟩ := d
      rw [set.place]
      by_cases hr : r = p
      · subst hr
        simp [Ne.symm h]
      · rw [if_neg hr, List.find?_cons, List.find?_cons, ih]
  rw [ entry?, set, hplace, entry?]

theorem bytes_set_self (w : World) (p : AbsPath) (bytes : List UInt8) :
    (w.set p (.file bytes)).bytes? p = some bytes := by
  rw [bytes?, entry_set_self]

theorem bytes_set_of_ne (h : q ≠ p) : (w.set p e).bytes? q = w.bytes? q := by
  rw [bytes?, entry_set_of_ne h, bytes?]

theorem bytes_makeDirectory {shown : String} (h : w.makeDirectory p shown = .ok w') (q : AbsPath) :
    w'.bytes? q = w.bytes? q := by
  rw [makeDirectory] at h
  split at h
  · cases h
  · split at h
    · cases h
    · next hfile =>
      split at h
      · cases h
        rfl
      · cases h
        by_cases hq : q = p
        · subst hq
          have hnone : w.bytes? q = none := by simpa [isFile] using hfile
          rw [hnone, bytes?, entry_set_self]
        · exact bytes_set_of_ne hq

theorem bytes_of_save {base : AbsPath} {path text : String} (h : w.save base path text = (w', .ok ())) :
    w'.bytes? (base.resolve path) = some (Text.Utf8.encode text) := by
  rw [save] at h
  dsimp only at h
  split at h
  · cases h
  · split at h
    · cases h
    · cases h
      exact bytes_set_self _ _ _

theorem bytes_of_unsaved {base : AbsPath} {path text : String} {f : FileError}
    (h : w.save base path text = (w', .error f)) (q : AbsPath) : w'.bytes? q = w.bytes? q := by
  rw [save] at h
  dsimp only at h
  split at h
  · cases h
    rfl
  · next made hmade =>
    split at h
    · cases h
      exact bytes_makeDirectory hmade q
    · cases h

theorem bytes_save_of_ne {base : AbsPath} {path text : String} (h : q ≠ base.resolve path) :
    (w.save base path text).1.bytes? q = w.bytes? q := by
  rw [save]
  dsimp only
  split
  · rfl
  · next made hmade =>
    split
    · exact bytes_makeDirectory hmade q
    · rw [bytes_set_of_ne h, bytes_makeDirectory hmade q]

end World

end Polyglot
