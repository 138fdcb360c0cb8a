import Polyglot.Component.Pipeline
import Polyglot.Language
import Polyglot.Proofs.Component.Nesting
import Polyglot.Proofs.Component.Read

/-!
Documents that are written on one line read back: the same regions, with the same contents, in the
same order.

Contents are not escaped when they are written. They need not be: each is cut out of the written text
where it was cut out of the first one.
-/

namespace Polyglot.Component

namespace RegionKind

theorem lowerTag_name (kind : RegionKind) : lowerTag kind.name.toList = kind.name := by
  cases kind <;> rfl

theorem map_lowerChar_of_kind {kind : RegionKind} {tag : List Char} (h : lowerTag tag = kind.name) :
    tag.map Text.lowerChar = kind.name.toList :=
  map_lowerChar_of_lowerTag h (by cases kind <;> decide) (by cases kind <;> decide)

theorem isTagName_name (kind : RegionKind) : IsTagName kind.name.toList := by
  cases kind
  · exact ⟨'t', "emplate".toList, rfl, rfl, List.all_eq_true.mp rfl⟩
  · exact ⟨'s', "cript".toList, rfl, rfl, List.all_eq_true.mp rfl⟩
  · exact ⟨'s', "tyle".toList, rfl, rfl, List.all_eq_true.mp rfl⟩

end RegionKind

namespace Block

/--
The kind of region that a block holds, if it is not one that is only kept.
-/
def kind? (b : Block) : Option RegionKind :=
  match lowerTag b.tag.toList with
  | "template" => some .template
  | "script" => some .script
  | "style" => some .style
  | _ => none

theorem kind_eq_some {b : Block} {kind : RegionKind} :
    b.kind? = some kind ↔ lowerTag b.tag.toList = kind.name := by
  constructor
  · intro h
    rw [kind?.eq_def] at h
    split at h <;> cases h <;> assumption
  · intro h
    rw [kind?.eq_def, h]
    cases kind <;> rfl

def region? (b : Block) : Option Region :=
  b.kind?.map fun kind => ⟨kind, b.content, b.attrs, b.start⟩

def Cut (b : Block) : Prop :=
  b.content = "" ∨ ∃ text rest, findClose? b.tag.toList text = some (b.content.toList, rest)

end Block

theorem cut_of_mem_readBlocks (fuel offset : Nat) (cs : List Char) {b : Block}
    (h : b ∈ (readBlocks fuel offset cs).1) : b.Cut := by
  induction fuel generalizing offset cs with
  | zero => cases h
  | succ fuel ih =>
    rw [readBlocks] at h
    split at h
    · cases h
    · next before t hfind =>
      split at h
      · exact ih _ _ h
      · dsimp only at h
        split at h
        · rcases List.mem_cons.mp h with rfl | h
          · exact .inl rfl
          · exact ih _ _ h
        · split at h
          · next content rest hclose =>
            rcases List.mem_cons.mp h with rfl | h
            · exact .inr ⟨t.rest, rest, by simpa using hclose⟩
            · exact ih _ _ h
          · cases h

namespace Document

def Takes (d : Document) (more : List Region) : Prop :=
  d.template.toList.length + more.countP (·.kind = .template) ≤ 1 ∧
    d.script.toList.length + more.countP (·.kind = .script) ≤ 1

def addRegion (d : Document) (region : Region) : Document :=
  match region.kind with
  | .template => { d with template := some region }
  | .script => { d with script := some region }
  | .style => { d with styles := d.styles ++ [region] }

theorem addBlock_eq_ok {d d' : Document} {b : Block} {region : Region}
    (h : b.region? = some region) :
    d.addBlock b = .ok d' ↔ d.Takes [region] ∧ d' = d.addRegion region := by
  obtain ⟨kind, hkind, rfl⟩ := Option.map_eq_some_iff.mp h
  rw [addBlock.eq_def, Block.kind_eq_some.mp hkind]
  cases kind with
  | template =>
    cases htemplate : d.template <;>
      simp [RegionKind.name, Takes, addRegion, htemplate, eq_comm]
  | script =>
    cases hscript : d.script <;> simp [RegionKind.name, Takes, addRegion, hscript, eq_comm]
  | style => simp [RegionKind.name, Takes, addRegion, eq_comm]

theorem addBlock_of_region_eq_none {d : Document} {b : Block} (h : b.region? = none) :
    d.addBlock b = .ok { d with custom := d.custom ++ [⟨b.tag, b.content, b.attrs, b.start⟩] } := by
  rw [Block.region?, Option.map_eq_none_iff, Block.kind?.eq_def] at h
  rw [addBlock.eq_def]
  split at h <;> simp_all

theorem takes_cons {d : Document} {region : Region} {more : List Region} :
    d.Takes (region :: more) ↔ d.Takes [region] ∧ (d.addRegion region).Takes more := by
  have hlength (found : Option Region) : found.toList.length ≤ 1 := by cases found <;> simp
  have htemplate := hlength d.template
  have hscript := hlength d.script
  obtain ⟨kind, content, attrs, start⟩ := region
  cases kind <;> simp only [Takes, addRegion, List.countP_cons, List.countP_nil,
    Option.toList_some, List.length_singleton] <;> grind

theorem takes_congr {d : Document} {regions regions' : List Region}
    (h : regions.map (fun region => (region.kind, region.content)) =
      regions'.map (fun region => (region.kind, region.content)))
    (htakes : d.Takes regions) : d.Takes regions' := by
  have hcount (kind : RegionKind) :
      regions.countP (·.kind = kind) = regions'.countP (·.kind = kind) := by
    have := congrArg (List.countP fun p : RegionKind × String => p.1 = kind) h
    rwa [List.countP_map, List.countP_map] at this
  rwa [Takes, ← hcount, ← hcount]

theorem parts_addRegion {d : Document} {region : Region} (h : d.Takes [region]) :
    (d.addRegion region).parts.Perm (region :: d.parts) := by
  obtain ⟨kind, content, attrs, start⟩ := region
  cases kind with
  | template =>
    have hnone : d.template = none := by simpa [Takes] using h.1
    simp [parts, addRegion, hnone]
  | script =>
    have hnone : d.script = none := by simpa [Takes] using h.2
    simp only [parts, addRegion, hnone, Option.toList_none, Option.toList_some, List.append_nil,
      List.append_assoc]
    exact List.perm_middle
  | style =>
    simp only [parts, addRegion, ← List.append_assoc]
    exact List.perm_append_singleton _ _

theorem exists_foldlM_addBlock {bs : List Block} {d : Document} :
    (∃ d', bs.foldlM addBlock d = .ok d') ↔ d.Takes (bs.filterMap (·.region?)) := by
  induction bs generalizing d with
  | nil =>
    have hlength (found : Option Region) : found.toList.length ≤ 1 := by cases found <;> simp
    simp [Takes, pure, Except.pure, hlength d.template, hlength d.script]
  | cons b bs ih =>
    rw [List.foldlM_cons]
    simp only [bind_eq_ok]
    cases hregion : b.region? with
    | none =>
      rw [List.filterMap_cons_none hregion]
      simp only [addBlock_of_region_eq_none hregion, Except.ok.injEq, exists_eq_left']
      exact ih
    | some region =>
      rw [List.filterMap_cons_some hregion, takes_cons, ← ih]
      simp only [addBlock_eq_ok hregion]
      grind

theorem parts_foldlM_addBlock {bs : List Block} {d d' : Document}
    (h : bs.foldlM addBlock d = .ok d') :
    d'.parts.Perm (d.parts ++ bs.filterMap (·.region?)) ∧
      ((∀ b ∈ bs, b.kind?.isSome) → d'.custom = d.custom) := by
  induction bs generalizing d with
  | nil =>
    cases h
    simp
  | cons b bs ih =>
    obtain ⟨d₁, hadd, h⟩ := bind_eq_ok.mp h
    obtain ⟨hparts, hcustom⟩ := ih h
    cases hregion : b.region? with
    | none =>
      rw [addBlock_of_region_eq_none hregion] at hadd
      cases hadd
      rw [List.filterMap_cons_none hregion]
      refine ⟨hparts, fun hall => ?_⟩
      have := hall b List.mem_cons_self
      simp_all [Block.region?]
    | some region =>
      obtain ⟨htakes, rfl⟩ := (addBlock_eq_ok hregion).mp hadd
      rw [List.filterMap_cons_some hregion]
      refine ⟨?_, fun hall => ?_⟩
      · exact (hparts.trans ((parts_addRegion htakes).append_right _)).trans List.perm_middle.symm
      · rw [hcustom fun b' hb' => hall b' (List.mem_cons_of_mem _ hb')]
        cases hkind : region.kind <;> simp [addRegion, hkind]

theorem pairwise_insertByStart (region : Region) {found : List Region}
    (h : found.Pairwise (·.start ≤ ·.start)) :
    (insertByStart region found).Pairwise (·.start ≤ ·.start) := by
  induction found with
  | nil => exact List.pairwise_singleton _ _
  | cons other found ih =>
    obtain ⟨hother, hfound⟩ := List.pairwise_cons.mp h
    rw [insertByStart]
    split
    · next hlt =>
      refine .cons ?_ h
      intro later hlater
      rcases List.mem_cons.mp hlater with rfl | hlater
      · exact Nat.le_of_lt hlt
      · exact Nat.le_trans (Nat.le_of_lt hlt) (hother later hlater)
    · next hle =>
      refine .cons ?_ (ih hfound)
      intro later hlater
      have hlater := (perm_insertByStart region found).mem_iff.mp hlater
      rcases List.mem_cons.mp hlater with rfl | hlater
      · exact Nat.le_of_not_lt hle
      · exact hother later hlater

theorem pairwise_regions (d : Document) : d.regions.Pairwise (·.start ≤ ·.start) :=
  List.foldlRecOn (motive := fun found : List Region => found.Pairwise (·.start ≤ ·.start)) _ _ .nil
    fun _ hfound region _ => pairwise_insertByStart region hfound

theorem regions_of_foldlM_addBlock {bs : List Block} {d : Document}
    (h : bs.foldlM addBlock {} = .ok d)
    (hbs : bs.Pairwise fun b b' => b.start < b'.start) : d.regions = bs.filterMap (·.region?) := by
  have hperm : d.regions.Perm (bs.filterMap (·.region?)) :=
    d.perm_regions.trans (parts_foldlM_addBlock h).1
  have hstart {b : Block} {region : Region} (h : b.region? = some region) :
      region.start = b.start := by
    obtain ⟨kind, -, rfl⟩ := Option.map_eq_some_iff.mp h
    rfl
  have hlt : (bs.filterMap (·.region?)).Pairwise (·.start < ·.start) :=
    hbs.filterMap _ fun b b' hlt region hregion region' hregion' => by
      rwa [hstart hregion, hstart hregion']
  have hne : (bs.filterMap (·.region?)).Pairwise (·.start ≠ ·.start) :=
    hlt.imp fun h => Nat.ne_of_lt h
  have : Std.Symm fun region region' : Region => region.start ≠ region'.start :=
    ⟨fun _ _ h => h.symm⟩
  refine hperm.eq_of_pairwise ?_ d.pairwise_regions (hlt.imp fun h => Nat.le_of_lt h)
  intro region region' hregion hregion' hle hge
  by_contra hdiffer
  exact hne.forall (hperm.mem_iff.mp hregion) hregion' hdiffer (Nat.le_antisymm hle hge)

end Document

theorem read_eq_ok {s : String} {d : Document} :
    read s = .ok d ↔ ∃ bs, readBlocks (s.toList.length + 1) 0 s.toList = (bs, none) ∧
      bs.foldlM Document.addBlock {} = .ok d := by
  rw [read]
  obtain ⟨bs, error⟩ := readBlocks (s.toList.length + 1) 0 s.toList
  dsimp only
  split <;> simp_all

namespace Region

def CutOut (region : Region) : Prop :=
  ∀ more, findClose? region.kind.name.toList
    (region.content.toList ++ (closing region.kind.name.toList ++ more)) =
      some (region.content.toList, more)

theorem cutOut_of_cut {b : Block} {region : Region} (hcut : b.Cut) (h : b.region? = some region) :
    region.CutOut := by
  obtain ⟨kind, hkind, rfl⟩ := Option.map_eq_some_iff.mp h
  intro more
  dsimp only
  rcases hcut with hempty | ⟨text, rest, hclose⟩
  · rw [hempty]
    exact findClose_closing (unmarked_of_isTagName kind.isTagName_name) more
  · have htag := Block.kind_eq_some.mp hkind
    have hname := kind.lowerTag_name
    have hlower : b.tag.toList.map Text.lowerChar = kind.name.toList.map Text.lowerChar := by
      rw [RegionKind.map_lowerChar_of_kind htag, RegionKind.map_lowerChar_of_kind hname]
    have hraw : isRawText b.tag.toList = isRawText kind.name.toList := by
      rw [isRawText, isRawText, htag, hname]
    rw [findClose_congr hlower hraw] at hclose
    exact findClose_again (unmarked_of_isTagName kind.isTagName_name) hclose more

def openingAttrs (s : Settings) : RegionKind → String
  | .template => ""
  | .script => " type='" ++ mediaType s.logic ++ "'"
  | .style => " type='text/css'"

theorem serialize_toList (s : Settings) (region : Region) :
    (region.serialize s false).toList =
      '<' :: (region.kind.name.toList ++ ((openingAttrs s region.kind).toList ++ '>' ::
        (region.content.toList ++ closing region.kind.name.toList))) := by
  obtain ⟨kind, content, attrs, start⟩ := region
  cases kind <;> simp [serialize, RegionKind.name, openingAttrs, closing]

end Region

theorem not_mem_of_isName {s : String} (h : Language.isName s) : '>' ∉ s.toList := by
  simp only [Language.isName, Bool.and_eq_true, List.all_eq_true] at h
  intro hmem
  have hbody : '>' ∈ Language.body s.toList := by
    rw [Language.body]
    split
    · next hlast =>
      obtain ⟨before, hbefore⟩ := List.getLast?_eq_some_iff.mp (by simpa using hlast)
      rw [hbefore] at hmem ⊢
      simpa using hmem
    · exact hmem
  exact absurd (h.2 '>' hbody) (by decide)

theorem not_mem_mediaType {logic : String} (h : Language.isName logic) :
    '>' ∉ (mediaType logic).toList := by
  rw [mediaType.eq_def]
  split
  · simp
  · simp
  · simp [not_mem_of_isName h]

theorem openingAttrs_plain {s : Settings} (h : Language.isName s.logic) (kind : RegionKind) :
    '>' ∉ (Region.openingAttrs s kind).toList ∧
      (∀ c ∈ (Region.openingAttrs s kind).toList.head?, c = ' ') ∧
      endsWithSlash (Region.openingAttrs s kind).toList = false := by
  cases kind with
  | template => simp [Region.openingAttrs, endsWithSlash, Text.trimRight]
  | style =>
    have hend : endsWithSlash " type='text/css'".toList = false := rfl
    exact ⟨by simp [Region.openingAttrs], by simp [Region.openingAttrs], hend⟩
  | script =>
    have hattrs : (Region.openingAttrs s .script).toList =
        ' ' :: ("type='".toList ++ (mediaType s.logic).toList) ++ ['\''] := by
      simp [Region.openingAttrs]
    rw [hattrs]
    refine ⟨?_, ?_, ?_⟩
    · simp [not_mem_mediaType h]
    · simp [eq_comm]
    · rw [endsWithSlash, Text.trimRight, List.reverse_append, List.reverse_singleton,
        List.singleton_append, List.dropWhile_cons_of_neg (by decide), List.reverse_cons,
        List.getLast?_concat]
      rfl

theorem readBlocks_serialize_append {s : Settings} (hlogic : Language.isName s.logic)
    {region : Region} (hcut : region.CutOut) (fuel offset : Nat) (more : List Char) :
    ∃ attrs offset',
      readBlocks (fuel + 1) offset ((region.serialize s false).toList ++ more) =
        (⟨region.kind.name, region.content, attrs, offset⟩ :: (readBlocks fuel offset' more).1,
          (readBlocks fuel offset' more).2) := by
  obtain ⟨hend, hspace, hslash⟩ := openingAttrs_plain hlogic region.kind
  obtain ⟨name, hname⟩ : ∃ name, name = region.kind.name.toList := ⟨_, rfl⟩
  obtain ⟨attrs, hattrs⟩ : ∃ attrs, attrs = (Region.openingAttrs s region.kind).toList := ⟨_, rfl⟩
  have htext : (region.serialize s false).toList ++ more =
      '<' :: (name ++ (attrs ++ '>' :: (region.content.toList ++ (closing name ++ more)))) := by
    simp [Region.serialize_toList, ← hname, ← hattrs]
  have hfind : findOpenTag? ((region.serialize s false).toList ++ more) =
      some ([], ⟨name, attrs, region.content.toList ++ (closing name ++ more)⟩) := by
    have hblank : ∀ c ∈ attrs.head?, Text.isBlank c := fun c hc => by
      rw [hspace c (hattrs ▸ hc)]
      decide
    rw [htext]
    exact findOpenTag_text _ (hname ▸ region.kind.isTagName_name) (hattrs ▸ hend) hblank
  have hclose : findClose? name (region.content.toList ++ (closing name ++ more)) =
      some (region.content.toList, more) := by
    rw [hname]
    exact hcut more
  have hcomment : Text.cut? ['<', '!', '-', '-'] [] = none := rfl
  rw [← hattrs] at hslash
  rw [readBlocks, hfind]
  simp only [hcomment, hslash, hclose, Bool.false_eq_true, if_false, String.ofList_toList,
    List.length_nil, Nat.add_zero]
  rw [hname, String.ofList_toList]
  exact ⟨_, _, rfl⟩

theorem readBlocks_serialize {s : Settings} (hlogic : Language.isName s.logic)
    {regions : List Region} (hcut : ∀ region ∈ regions, region.CutOut) {fuel : Nat}
    (hfuel : (regions.flatMap fun region => (region.serialize s false).toList).length < fuel)
    (offset : Nat) :
    ∃ bs, readBlocks fuel offset (regions.flatMap fun region =>
        (region.serialize s false).toList) = (bs, none) ∧
      bs.map (fun b => (b.kind?, b.content)) =
        regions.map (fun region => (some region.kind, region.content)) := by
  induction regions generalizing fuel offset with
  | nil =>
    obtain ⟨fuel, rfl⟩ := Nat.exists_eq_add_one.mpr (Nat.zero_lt_of_lt hfuel)
    exact ⟨[], rfl, rfl⟩
  | cons region regions ih =>
    obtain ⟨fuel, rfl⟩ := Nat.exists_eq_add_one.mpr (Nat.zero_lt_of_lt hfuel)
    obtain ⟨hregion, hcut⟩ := List.forall_mem_cons.mp hcut
    obtain ⟨attrs, offset', hread⟩ := readBlocks_serialize_append hlogic hregion fuel offset
      (regions.flatMap fun region => (region.serialize s false).toList)
    have hfuel :
        (regions.flatMap fun region => (region.serialize s false).toList).length < fuel := by
      rw [List.flatMap_cons, List.length_append, Region.serialize_toList, List.length_cons] at hfuel
      omega
    obtain ⟨bs, hbs, hmap⟩ := ih hcut hfuel offset'
    rw [List.flatMap_cons, hread, hbs]
    have hkind : (Block.mk region.kind.name region.content attrs offset).kind? =
        some region.kind := by
      rw [Block.kind_eq_some, region.kind.lowerTag_name]
    exact ⟨_, rfl, by rw [List.map_cons, List.map_cons, hmap, hkind]⟩

theorem Document.serialize_toList (s : Settings) (d : Document) :
    (d.serialize s false).toList =
      d.regions.flatMap fun region => (region.serialize s false).toList := by
  have hjoin (texts : List (List Char)) : ([] : List Char).intercalate texts = texts.flatten := by
    induction texts with
    | nil => rfl
    | cons text texts ih => cases texts <;> simp_all
  simp [serialize, hjoin, List.flatMap, Function.comp_def]

theorem regions_of_map_kind {bs : List Block} {regions : List Region}
    (h : bs.map (fun b => (b.kind?, b.content)) =
      regions.map (fun region => (some region.kind, region.content))) :
    (bs.filterMap (·.region?)).map (fun region => (region.kind, region.content)) =
      regions.map (fun region => (region.kind, region.content)) := by
  induction regions generalizing bs with
  | nil =>
    rw [List.map_nil, List.map_eq_nil_iff] at h
    rw [h]
    rfl
  | cons region regions ih =>
    obtain ⟨b, bs, rfl, hb, hbs⟩ := List.map_eq_cons_iff.mp h
    obtain ⟨hkind, hcontent⟩ := Prod.mk.inj hb
    have hregion : b.region? = some ⟨region.kind, b.content, b.attrs, b.start⟩ := by
      rw [Block.region?, hkind, Option.map_some]
    rw [List.filterMap_cons_some hregion, List.map_cons, List.map_cons, ih hbs, hcontent]

/--
Every document that a text holds is held by the text that it is written as, but for the blocks that
are only kept.
-/
theorem read_serialize {text : String} {d : Document} (hread : read text = .ok d) {s : Settings}
    (hlogic : Language.isName s.logic) :
    ∃ d', read (d.serialize s false) = .ok d' ∧ d'.custom = [] ∧
      d'.regions.map (fun region => (region.kind, region.content)) =
        d.regions.map (fun region => (region.kind, region.content)) := by
  obtain ⟨bs, hbs, hfold⟩ := read_eq_ok.mp hread
  have hregions : d.regions = bs.filterMap (·.region?) := by
    refine Document.regions_of_foldlM_addBlock hfold ?_
    have := (pairwise_readBlocks (text.toList.length + 1) 0 text.toList).1
    rwa [hbs] at this
  have hcut : ∀ region ∈ d.regions, region.CutOut := by
    intro region hregion
    rw [hregions] at hregion
    obtain ⟨b, hb, hregion⟩ := List.mem_filterMap.mp hregion
    have hcut : b.Cut := cut_of_mem_readBlocks (text.toList.length + 1) 0 text.toList (by rwa [hbs])
    exact Region.cutOut_of_cut hcut hregion
  have htext := d.serialize_toList s
  obtain ⟨bs', hbs', hmap⟩ := readBlocks_serialize hlogic hcut (Nat.lt_succ_self _) 0
  rw [← htext] at hbs'
  have hkinds := regions_of_map_kind hmap
  have htakes : Document.Takes {} (bs'.filterMap (·.region?)) := by
    refine Document.takes_congr ?_ (Document.exists_foldlM_addBlock.mp ⟨d, hfold⟩)
    rw [← hregions, hkinds]
  obtain ⟨d', hfold'⟩ := Document.exists_foldlM_addBlock.mpr htakes
  refine ⟨d', read_eq_ok.mpr ⟨bs', hbs', hfold'⟩, ?_, ?_⟩
  · refine (Document.parts_foldlM_addBlock hfold').2 fun b hb => ?_
    obtain ⟨region, -, hregion⟩ := List.mem_map.mp (hmap ▸ List.mem_map_of_mem hb)
    rw [← (Prod.mk.inj hregion).1]
    rfl
  · rw [Document.regions_of_foldlM_addBlock hfold' ?_, hkinds]
    have := (pairwise_readBlocks ((d.serialize s false).toList.length + 1) 0
      (d.serialize s false).toList).1
    rwa [hbs'] at this

theorem read_serialize_half_written :
    ∃ d, read
        "<Script>a</scr</SCRIPT ><note x/><template>\n<template></template\n></templat</template>" =
          .ok d ∧ Language.isName ({} : Settings).logic ∧
      ∃ d', read (d.serialize {} false) = .ok d' ∧ d'.custom = [] ∧
        d'.regions.map (fun region => (region.kind, region.content)) =
          d.regions.map (fun region => (region.kind, region.content)) := by
  have hread : read
      "<Script>a</scr</SCRIPT ><note x/><template>\n<template></template\n></templat</template>" =
        .ok { template := some ⟨.template, "\n<template></template\n></templat", [], 33⟩
              script := some ⟨.script, "a</scr", [], 0⟩
              custom := [⟨"note", "", [("x", .present)], 24⟩] } := by
    rfl
  have hlogic : Language.isName ({} : Settings).logic := rfl
  exact ⟨_, hread, hlogic, read_serialize hread hlogic⟩

end Polyglot.Component
