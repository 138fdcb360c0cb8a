import Mathlib.Data.List.Pairwise
import Polyglot.Proofs.Component.Nesting
import Polyglot.Proofs.Outcome

/-!
Reading component documents: each block starts behind the one before it, so that no two regions of a
document start at the same place.
-/

namespace Polyglot.Component

section Scanners

theorem findOpenTag_length {cs before : List Char} {t : OpenTag}
    (h : findOpenTag? cs = some (before, t)) : before.length + t.rest.length < cs.length := by
  obtain ⟨behind, rfl, hhere⟩ := openTagHere_of_findOpenTag h
  obtain ⟨rfl, -⟩ := openTagHere_eq_some.mp hhere
  simp only [List.length_append, List.length_cons]
  omega

theorem afterName_length {name cs rest : List Char} (h : afterName? name cs = some rest) :
    rest.length ≤ cs.length := by
  obtain ⟨written, -, rfl⟩ := afterName_eq_some.mp h
  exact (List.suffix_append written rest).length_le

theorem closeTagHere_length {tag cs rest : List Char} (h : closeTagHere? tag cs = some rest) :
    rest.length ≤ cs.length := by
  obtain ⟨text, after, rfl, hafter, htrim⟩ := closeTagHere_eq_some.mp h
  have hname := afterName_length hafter
  have hblanks := (List.dropWhile_suffix (l := after) Text.isBlank).length_le
  rw [← Text.trimLeft, htrim] at hblanks
  simp only [List.length_cons] at hblanks ⊢
  omega

theorem sameTagHere_length {tag cs attrs rest : List Char}
    (h : sameTagHere? tag cs = some (attrs, rest)) : rest.length ≤ cs.length := by
  obtain ⟨text, after, rfl, hafter, hend⟩ := sameTagHere_eq_some.mp h
  have hname := afterName_length hafter
  obtain ⟨rfl, -⟩ := takeTagEnd_eq_some.mp hend
  simp only [List.length_append, List.length_cons] at hname ⊢
  omega

theorem findRawClose_length {tag cs content rest : List Char}
    (h : findRawClose? tag cs = some (content, rest)) : rest.length ≤ cs.length := by
  induction cs generalizing content with
  | nil => cases h
  | cons c cs ih =>
    rw [findRawClose?] at h
    split at h
    · next hclose =>
      cases h
      exact closeTagHere_length hclose
    · rw [Option.map_eq_some_iff] at h
      obtain ⟨⟨before, rest'⟩, hfind, heq⟩ := h
      cases heq
      exact Nat.le_succ_of_le (ih hfind)

theorem findNestedClose_length {tag cs content rest : List Char} {fuel depth : Nat}
    (h : findNestedClose? tag fuel depth cs = some (content, rest)) : rest.length ≤ cs.length := by
  induction fuel generalizing depth cs content with
  | zero => cases h
  | succ fuel ih =>
    cases cs with
    | nil => cases h
    | cons c cs =>
      have hgo {depth : Nat} {tail : List Char} {f : List Char → List Char}
          (hle : tail.length ≤ (c :: cs).length)
          (h : ((findNestedClose? tag fuel depth tail).map fun p => (f p.1, p.2)) =
            some (content, rest)) : rest.length ≤ (c :: cs).length := by
        rw [Option.map_eq_some_iff] at h
        obtain ⟨⟨before, rest'⟩, hfind, heq⟩ := h
        cases heq
        exact Nat.le_trans (ih hfind) hle
      rw [findNestedClose?] at h
      split at h
      · next hsame => exact hgo (sameTagHere_length hsame) h
      · split at h
        · next hclose =>
          split at h
          · cases h
            exact closeTagHere_length hclose
          · exact hgo (closeTagHere_length hclose) h
        · exact hgo (Nat.le_succ _) h

theorem findClose_length {tag cs content rest : List Char}
    (h : findClose? tag cs = some (content, rest)) : rest.length ≤ cs.length := by
  rw [findClose?] at h
  split at h
  · exact findRawClose_length h
  · exact findNestedClose_length h

end Scanners

theorem pairwise_readBlocks (fuel offset : Nat) (cs : List Char) :
    (readBlocks fuel offset cs).1.Pairwise (fun b b' => b.start < b'.start) ∧
      ∀ b ∈ (readBlocks fuel offset cs).1, offset ≤ b.start := by
  induction fuel generalizing offset cs with
  | zero => exact ⟨.nil, by simp [readBlocks]⟩
  | succ fuel ih =>
    rw [readBlocks]
    split
    · exact ⟨.nil, by simp⟩
    · next before t hfind =>
      have hlength := findOpenTag_length hfind
      split
      · obtain ⟨hpairwise, hle⟩ := ih (offset + (cs.length - _)) _
        exact ⟨hpairwise, fun b hb => Nat.le_trans (Nat.le_add_right _ _) (hle b hb)⟩
      · have hclose (block : Block) (rest : List Char) (hstart : block.start = offset + before.length)
            (hrest : rest.length ≤ t.rest.length) :
            let more := readBlocks fuel (offset + (cs.length - rest.length)) rest
            (block :: more.1).Pairwise (fun b b' => b.start < b'.start) ∧
              ∀ b ∈ block :: more.1, offset ≤ b.start := by
          obtain ⟨hpairwise, hle⟩ := ih (offset + (cs.length - rest.length)) rest
          refine ⟨.cons ?_ hpairwise, ?_⟩
          · intro b hb
            have := hle b hb
            omega
          · intro b hb
            rcases List.mem_cons.mp hb with rfl | hb
            · omega
            · exact Nat.le_trans (Nat.le_add_right _ _) (hle b hb)
        dsimp only
        split
        · exact hclose _ _ rfl (Nat.le_refl _)
        · split
          · next hfound => exact hclose _ _ rfl (findClose_length hfound)
          · exact ⟨.nil, by simp⟩

namespace Document

/--
The compiled blocks of a document, whatever their order in the text.
-/
def parts (d : Document) : List Region :=
  d.template.toList ++ d.script.toList ++ d.styles

theorem mapRegions_congr {f g : Region → Region} {d : Document} (h : ∀ region ∈ d.parts, f region = g region) :
    d.mapRegions f = d.mapRegions g := by
  simp only [parts, List.mem_append, Option.mem_toList] at h
  have htemplate : d.template.map f = d.template.map g :=
    Option.map_congr fun region hregion => h region (.inl (.inl hregion))
  have hscript : d.script.map f = d.script.map g :=
    Option.map_congr fun region hregion => h region (.inl (.inr hregion))
  have hstyles : d.styles.map f = d.styles.map g :=
    List.map_congr_left fun region hregion => h region (.inr hregion)
  rw [mapRegions, mapRegions, htemplate, hscript, hstyles]

theorem perm_insertByStart (region : Region) (found : List Region) :
    (insertByStart region found).Perm (region :: found) := by
  induction found with
  | nil => exact .refl _
  | cons other found ih =>
    rw [insertByStart]
    split
    · exact .refl _
    · exact (ih.cons other).trans (.swap region other found)

theorem perm_regions (d : Document) : d.regions.Perm d.parts := by
  have hfold (more found : List Region) :
      (more.foldl (fun found region => insertByStart region found) found).Perm (found ++ more) := by
    induction more generalizing found with
    | nil => rw [List.foldl_nil, List.append_nil]
    | cons region more ih =>
      rw [List.foldl_cons]
      apply (ih _).trans
      apply ((perm_insertByStart region found).append_right more).trans
      rw [List.cons_append]
      exact List.perm_middle.symm
  exact hfold d.parts []

theorem mem_regions {d : Document} {region : Region} : region ∈ d.regions ↔ region ∈ d.parts :=
  d.perm_regions.mem_iff

def Apart (d : Document) : Prop :=
  (d.parts.map (·.start)).Nodup

theorem parts_addBlock {d d' : Document} {b : Block} (h : d.addBlock b = .ok d') :
    d'.parts = d.parts ∨ ∃ region, region.start = b.start ∧ d'.parts.Perm (region :: d.parts) := by
  rw [addBlock.eq_def] at h
  dsimp only at h
  split at h
  · split at h
    · cases h
    · next hnone =>
      cases h
      have hnone : d.template = none := by simpa using hnone
      exact .inr ⟨⟨.template, b.content, b.attrs, b.start⟩, rfl, by simp [parts, hnone]⟩
  · split at h
    · cases h
    · next hnone =>
      cases h
      have hnone : d.script = none := by simpa using hnone
      refine .inr ⟨⟨.script, b.content, b.attrs, b.start⟩, rfl, ?_⟩
      simp only [parts, hnone, Option.toList_none, Option.toList_some, List.append_nil,
        List.append_assoc]
      exact List.perm_middle
  · cases h
    refine .inr ⟨⟨.style, b.content, b.attrs, b.start⟩, rfl, ?_⟩
    simp only [parts, ← List.append_assoc]
    exact List.perm_append_singleton _ _
  · cases h
    exact .inl rfl

theorem apart_foldlM {bs : List Block} {d d' : Document} (h : bs.foldlM addBlock d = .ok d')
    (hbs : bs.Pairwise fun b b' => b.start < b'.start) (hd : d.Apart)
    (hlt : ∀ region ∈ d.parts, ∀ b ∈ bs, region.start < b.start) : d'.Apart := by
  induction bs generalizing d with
  | nil =>
    cases h
    exact hd
  | cons b bs ih =>
    obtain ⟨d₁, hadd, h⟩ := bind_eq_ok.mp h
    obtain ⟨hb, hbs⟩ := List.pairwise_cons.mp hbs
    rcases parts_addBlock hadd with hparts | ⟨region, hstart, hperm⟩
    · apply ih h hbs
      · rw [Apart, hparts]
        exact hd
      · rw [hparts]
        exact fun region hregion b' hb' => hlt region hregion b' (List.mem_cons_of_mem _ hb')
    · apply ih h hbs
      · rw [Apart, (hperm.map _).nodup_iff, List.map_cons, List.nodup_cons]
        refine ⟨?_, hd⟩
        intro hmem
        obtain ⟨other, hother, heq⟩ := List.mem_map.mp hmem
        have := hlt other hother b List.mem_cons_self
        omega
      · intro other hother b' hb'
        rcases List.mem_cons.mp (hperm.mem_iff.mp hother) with rfl | hother
        · rw [hstart]
          exact hb b' hb'
        · exact hlt other hother b' (List.mem_cons_of_mem _ hb')

end Document

theorem apart_of_read {s : String} {d : Document} (h : read s = .ok d) : d.Apart := by
  rw [read] at h
  dsimp only at h
  split at h
  · cases h
  · cases h
  · next hfold _ =>
    cases h
    apply Document.apart_foldlM hfold (pairwise_readBlocks _ _ _).1
    · simp [Document.Apart, Document.parts]
    · simp [Document.parts]

end Polyglot.Component
