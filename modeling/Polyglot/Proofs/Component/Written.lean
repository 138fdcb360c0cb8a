import Polyglot.Proofs.Component.Attributes
import Polyglot.Proofs.Component.Nesting
import Polyglot.Proofs.Component.RoundTrip
import Polyglot.Proofs.Text.Blanks
import Polyglot.Proofs.Text.Search

/-!
Component documents that are written block by block, with blanks and comments in between, read back as
just these blocks.

A tag ends at its first end sign, also where that stands in the value of an attribute, and a slash right
behind its name makes it none. Such values are left out, and such blocks are not read.
-/

namespace Polyglot.Component

/--
A block that is to be written. Without a content its tag closes itself. There may be blanks behind its
attributes.
-/
structure Draft where
  tag : List Char
  attrs : List SpacedAttr := []
  blanks : List Char := []
  content : Option (List Char) := none

namespace Draft

def attrText (d : Draft) : List Char :=
  d.attrs.flatMap SpacedAttr.text ++ d.blanks

def text (d : Draft) : List Char :=
  '<' :: (d.tag ++ d.attrText ++
    match d.content with
    | none => ['/', '>']
    | some content => '>' :: (content ++ closing d.tag))

structure Legal (d : Draft) : Prop where
  tag : IsTagName d.tag
  attrs : ∀ a ∈ d.attrs, a.Legal
  names : (d.attrs.map (·.name)).Nodup
  blanks : ∀ c ∈ d.blanks, Text.isBlank c
  content : ∀ content ∈ d.content, Holds d.tag content

/--
No end sign of a tag stands in the value of an attribute.
-/
def Plain (d : Draft) : Prop :=
  ∀ a ∈ d.attrs, ∀ s, a.value = .text s → '>' ∉ s.toList

def isBare (d : Draft) : Bool :=
  d.content.isNone && d.attrs.isEmpty && d.blanks.isEmpty

def block (d : Draft) (start : Nat) : Block :=
  ⟨String.ofList d.tag, String.ofList (d.content.getD []), attributesOf d.attrs, start⟩

end Draft

/--
What documents are written from: blocks, and blanks and comments between them.
-/
inductive Piece where
  | blanks (cs : List Char)
  | comment (body : List Char)
  | block (d : Draft)

namespace Piece

def text : Piece → List Char
  | .blanks cs => cs
  | .comment body => ['<', '!', '-', '-'] ++ (body ++ ['-', '-', '>'])
  | .block d => d.text

/--
No end mark stands inside a comment.
-/
def Legal : Piece → Prop
  | .blanks cs => ∀ c ∈ cs, Text.isBlank c
  | .comment body => ¬ ['-', '-', '>'] <:+: body
  | .block d => d.Legal ∧ d.Plain

def block? : Piece → Option Draft
  | .block d => if d.isBare then none else some d
  | _ => none

end Piece

/--
The blocks of written pieces, from an offset on.
-/
def blocksOf : Nat → List Piece → List Block
  | _, [] => []
  | offset, p :: ps =>
    (p.block?.map (·.block offset)).toList ++ blocksOf (offset + p.text.length) ps

section Reading

variable {cs rest : List Char}

theorem findOpenTag_cons {c : Char} (h : openTagHere? (c :: cs) = none) :
    findOpenTag? (c :: cs) = (findOpenTag? cs).map fun p => (c :: p.1, p.2) := by
  rw [findOpenTag?, h]

theorem openTagHere_of_ne {c : Char} (h : c ≠ '<') : openTagHere? (c :: cs) = none := by
  rw [openTagHere?.eq_def]
  split
  · next heq => exact absurd (List.cons.inj heq).1 h
  · rfl

theorem prefix_of_findOpenTag {before : List Char} {t : OpenTag}
    (h : findOpenTag? cs = some (before, t)) : before <+: cs := by
  obtain ⟨behind, rfl, -⟩ := openTagHere_of_findOpenTag h
  exact List.prefix_append before behind

theorem findOpenTag_of_append (before : List Char) (h : findOpenTag? (before ++ cs) = none) :
    findOpenTag? cs = none := by
  induction before with
  | nil => exact h
  | cons c before ih =>
    rw [List.cons_append, findOpenTag?] at h
    split at h
    · cases h
    · exact ih (Option.map_eq_none_iff.mp h)

theorem skipComment_length (cs : List Char) : (skipComment cs).length ≤ cs.length := by
  rw [skipComment]
  split
  · next hcut =>
    have := congrArg List.length (Text.eq_append_of_cut hcut)
    simp only [List.length_append] at this
    omega
  · exact Nat.zero_le _

theorem readBlocks_char {c : Char} (htag : openTagHere? (c :: cs) = none)
    (hcomment : Text.after? ['<', '!', '-', '-'] (c :: cs) = none) (fuel offset : Nat) :
    readBlocks fuel offset (c :: cs) = readBlocks fuel (offset + 1) cs := by
  cases fuel with
  | zero => rfl
  | succ fuel =>
    rw [readBlocks, readBlocks, findOpenTag_cons htag]
    cases hfind : findOpenTag? cs with
    | none => rfl
    | some found =>
      obtain ⟨before, t⟩ := found
      have hnone : Text.after? ['<', '!', '-', '-'] (c :: before) = none := by
        obtain ⟨more, rfl⟩ := prefix_of_findOpenTag hfind
        cases hafter : Text.after? ['<', '!', '-', '-'] (c :: before) with
        | none => rfl
        | some rest =>
          rw [← List.cons_append, Text.eq_append_of_after hafter, List.append_assoc,
            Text.after_append] at hcomment
          cases hcomment
      have hlength := findOpenTag_length hfind
      have hoffset {rest : List Char} (hle : rest.length ≤ cs.length) :
          offset + ((c :: cs).length - rest.length) = offset + 1 + (cs.length - rest.length) := by
        rw [List.length_cons]
        omega
      have hstart : offset + (c :: before).length = offset + 1 + before.length := by
        rw [List.length_cons]
        omega
      simp only [Option.map_some, Text.cut?, hnone]
      cases hcut : Text.cut? ['<', '!', '-', '-'] before with
      | some cut =>
        have hskip := skipComment_length (cs.drop (cut.1.length + 4))
        rw [List.length_drop] at hskip
        have hdrop : (c :: cs).drop ((c :: cut.1).length + 4) = cs.drop (cut.1.length + 4) := rfl
        simp only [Option.map_some, hdrop, hoffset (Nat.le_trans hskip (Nat.sub_le _ _))]
      | none =>
        simp only [Option.map_none, hstart]
        split
        · rw [hoffset (by omega)]
        · split
          · next content rest hclose =>
            rw [hoffset]
            have := findClose_length hclose
            omega
          · rfl

theorem readBlocks_unmarked {before : List Char} (h : '<' ∉ before) (fuel offset : Nat)
    (cs : List Char) :
    readBlocks fuel offset (before ++ cs) = readBlocks fuel (offset + before.length) cs := by
  induction before generalizing offset with
  | nil => rfl
  | cons c before ih =>
    rw [List.mem_cons, not_or] at h
    have hcomment : Text.after? ['<', '!', '-', '-'] (c :: (before ++ cs)) = none := by
      simp [Text.after?, h.1]
    rw [List.cons_append, readBlocks_char (openTagHere_of_ne (Ne.symm h.1)) hcomment, ih h.2,
      List.length_cons, Nat.add_right_comm, Nat.add_assoc]

theorem findOpenTag_comment (cs : List Char) :
    findOpenTag? (['<', '!', '-', '-'] ++ cs) =
      (findOpenTag? cs).map fun p => (['<', '!', '-', '-'] ++ p.1, p.2) := by
  have htag : openTagHere? ('<' :: '!' :: '-' :: '-' :: cs) = none := rfl
  simp only [List.cons_append, List.nil_append, findOpenTag_cons htag,
    findOpenTag_cons (openTagHere_of_ne (show '!' ≠ '<' by decide)),
    findOpenTag_cons (openTagHere_of_ne (show '-' ≠ '<' by decide)), Option.map_map,
    Function.comp_def]

theorem readBlocks_comment {body : List Char} (h : ¬ ['-', '-', '>'] <:+: body) {fuel : Nat}
    (offset : Nat) {cs : List Char}
    (hfuel : ((Piece.comment body).text ++ cs).length < fuel) :
    ∃ fuel', cs.length < fuel' ∧ readBlocks fuel offset ((Piece.comment body).text ++ cs) =
      readBlocks fuel' (offset + (Piece.comment body).text.length) cs := by
  obtain ⟨fuel, rfl⟩ := Nat.exists_eq_add_one.mpr (Nat.zero_lt_of_lt hfuel)
  have htext : (Piece.comment body).text ++ cs =
      ['<', '!', '-', '-'] ++ (body ++ (['-', '-', '>'] ++ cs)) := by simp [Piece.text]
  have hlength : cs.length < fuel := by
    rw [htext] at hfuel
    simp only [List.length_append, List.length_cons] at hfuel
    omega
  refine ⟨fuel, hlength, ?_⟩
  rw [readBlocks]
  cases hfind : findOpenTag? ((Piece.comment body).text ++ cs) with
  | none =>
    rw [readBlocks.eq_def]
    cases fuel <;> simp [findOpenTag_of_append _ hfind]
  | some found =>
    rw [htext, findOpenTag_comment, Option.map_eq_some_iff] at hfind
    obtain ⟨⟨before, t⟩, -, rfl⟩ := hfind
    have hcut : Text.cut? ['<', '!', '-', '-'] (['<', '!', '-', '-'] ++ before) =
        some ([], before) := rfl
    have hskip : skipComment (((Piece.comment body).text ++ cs).drop 4) = cs := by
      have hdrop : (['<', '!', '-', '-'] ++ (body ++ (['-', '-', '>'] ++ cs))).drop 4 =
          body ++ (['-', '-', '>'] ++ cs) := rfl
      rw [htext, hdrop, skipComment, Text.cut_of_not_infix h]
    simp only [hcut, List.length_nil, Nat.zero_add, hskip, List.length_append, Nat.add_sub_cancel]

end Reading

namespace Draft

variable {d : Draft}

theorem head_attrText (h : d.Legal) : ∀ c ∈ d.attrText.head?, Text.isBlank c :=
  head_attrs h.attrs h.blanks

theorem not_mem_attrText (h : d.Legal) (hplain : d.Plain) : '>' ∉ d.attrText := by
  have hblank {blanks : List Char} (h : ∀ c ∈ blanks, Text.isBlank c) : '>' ∉ blanks :=
    fun hmem => absurd (h '>' hmem) (by decide)
  rw [attrText, List.mem_append, not_or]
  refine ⟨fun hmem => ?_, hblank h.blanks⟩
  obtain ⟨a, ha, hmem⟩ := List.mem_flatMap.mp hmem
  have hlegal := h.attrs a ha
  have hname : '>' ∉ a.name.toList := fun hmem => absurd (hlegal.name '>' hmem) (by decide)
  rw [SpacedAttr.text, List.mem_append] at hmem
  rcases hmem with hmem | hmem
  · exact hblank hlegal.blanks hmem
  · cases hvalue : a.value with
    | present =>
      rw [hvalue] at hmem
      exact hname hmem
    | text s =>
      have hs := hplain a ha s hvalue
      simp [hvalue, writeAttr, hname, hs] at hmem

theorem endsWithSlash_attrText (h : d.Legal) : endsWithSlash d.attrText = false := by
  rw [endsWithSlash, attrText, Text.trimRight_append_blanks h.blanks]
  rcases List.eq_nil_or_concat d.attrs with hnil | ⟨as, a, hattrs⟩
  · rw [hnil]
    rfl
  · have ha : a.Legal := h.attrs a (by rw [hattrs]; simp)
    have hlast : ∃ more c,
        writeAttr a.name a.value = more ++ [c] ∧ Text.isBlank c = false ∧ c ≠ '/' := by
      cases a.value with
      | present =>
        rcases List.eq_nil_or_concat a.name.toList with hnil | ⟨more, c, hname⟩
        · exact absurd (String.toList_eq_nil_iff.mp hnil) ha.named
        · rw [List.concat_eq_append] at hname
          have hc := ha.name c (by rw [hname]; simp)
          refine ⟨more, c, hname, ?_, ?_⟩
          · cases hblank : Text.isBlank c with
            | false => rfl
            | true => simp [isAttrNameChar_of_isBlank hblank] at hc
          · rintro rfl
            simp [isAttrNameChar] at hc
      | text s =>
        exact ⟨a.name.toList ++ '=' :: '"' :: s.toList, '"', by simp [writeAttr], rfl, by decide⟩
    obtain ⟨more, c, hwritten, hblank, hne⟩ := hlast
    rw [hattrs, List.concat_eq_append, List.flatMap_append, List.flatMap_singleton, SpacedAttr.text,
      hwritten, ← List.append_assoc, ← List.append_assoc, Text.trimRight_concat hblank,
      List.getLast?_concat]
    simpa using hne

theorem readAttributes_attrText (h : d.Legal) : readAttributes d.attrText = attributesOf d.attrs :=
  readAttributes_written h.attrs h.names h.blanks

theorem readBlocks_text (h : d.Legal) (hplain : d.Plain) (hbare : d.isBare = false)
    (fuel offset : Nat) (more : List Char) :
    readBlocks (fuel + 1) offset (d.text ++ more) =
      (d.block offset :: (readBlocks fuel (offset + d.text.length) more).1,
        (readBlocks fuel (offset + d.text.length) more).2) := by
  have hcomment : Text.cut? ['<', '!', '-', '-'] [] = none := rfl
  have hoffset : offset + ((d.text ++ more).length - more.length) = offset + d.text.length := by
    rw [List.length_append, Nat.add_sub_cancel]
  have hmark := not_mem_attrText h hplain
  have hhead := head_attrText h
  cases hcontent : d.content with
  | none =>
    have hne : d.attrText ≠ [] := by
      rintro hnil
      obtain ⟨hattrs, hblanks⟩ := List.append_eq_nil_iff.mp hnil
      have hattrs : d.attrs = [] := by
        cases hattrs' : d.attrs with
        | nil => rfl
        | cons a as =>
          have ha : a ∈ d.attrs := by simp [hattrs']
          have := (List.append_eq_nil_iff.mp (List.flatMap_eq_nil_iff.mp hattrs a ha)).1
          exact absurd this (h.attrs a ha).apart
      simp [isBare, hcontent, hattrs, hblanks] at hbare
    have htext : d.text ++ more = '<' :: (d.tag ++ (d.attrText ++ ['/'] ++ '>' :: more)) := by
      simp [text, hcontent]
    have hfind : findOpenTag? (d.text ++ more) = some ([], ⟨d.tag, d.attrText ++ ['/'], more⟩) := by
      rw [htext]
      refine findOpenTag_text _ h.tag (by simp [hmark]) fun c hc => ?_
      obtain ⟨first, rest, hfirst⟩ := List.exists_cons_of_ne_nil hne
      rw [hfirst] at hc hhead
      exact hhead c hc
    have htrim : Text.trimRight (d.attrText ++ ['/']) = d.attrText ++ ['/'] :=
      Text.trimRight_concat (by decide)
    have hslash : endsWithSlash (d.attrText ++ ['/']) = true := by
      rw [endsWithSlash, htrim, List.getLast?_concat]
      rfl
    rw [readBlocks, hfind]
    simp only [hcomment, hslash, if_true, htrim, List.dropLast_concat, hoffset,
      readAttributes_attrText h, List.length_nil, Nat.add_zero, block, hcontent, Option.getD_none]
  | some content =>
    have htext : d.text ++ more =
        '<' :: (d.tag ++ (d.attrText ++ '>' :: (content ++ (closing d.tag ++ more)))) := by
      simp [text, hcontent]
    have hfind := findOpenTag_text (content ++ (closing d.tag ++ more)) h.tag hmark hhead
    rw [← htext] at hfind
    have hclose := findClose_of_holds (unmarked_of_isTagName h.tag) (h.content content hcontent) more
    rw [readBlocks, hfind]
    simp only [hcomment, endsWithSlash_attrText h, hclose, Bool.false_eq_true, if_false, hoffset,
      readAttributes_attrText h, List.length_nil, Nat.add_zero, block, hcontent, Option.getD_some]

theorem readBlocks_bare (h : d.Legal) (hbare : d.isBare) (fuel offset : Nat) (more : List Char) :
    readBlocks fuel offset (d.text ++ more) =
      readBlocks fuel (offset + d.text.length) more := by
  simp only [isBare, Bool.and_eq_true, Option.isNone_iff_eq_none, List.isEmpty_iff] at hbare
  obtain ⟨⟨hcontent, hattrs⟩, hblanks⟩ := hbare
  have htext : d.text = '<' :: (d.tag ++ ['/', '>']) := by
    simp [text, attrText, hcontent, hattrs, hblanks]
  have hunmarked : '<' ∉ d.tag ++ ['/', '>'] := by
    have htag : '<' ∉ d.tag := fun hmem => absurd (isTagChar_of_mem h.tag hmem) (by decide)
    simp [htag]
  have htag : openTagHere? ('<' :: (d.tag ++ ['/', '>'] ++ more)) = none := by
    have hslash : isTagChar '/' = false := by decide
    have hname : takeTagName? (d.tag ++ ['/', '>'] ++ more) = some (d.tag, '/' :: '>' :: more) :=
      takeTagName_eq_some_iff.mpr ⟨by simp, h.tag, by simp [hslash]⟩
    rw [openTagHere?, hname]
    rfl
  have hcomment : Text.after? ['<', '!', '-', '-'] ('<' :: (d.tag ++ ['/', '>'] ++ more)) = none := by
    obtain ⟨first, rest, hfirst, hletter, -⟩ := h.tag
    have hne : '!' ≠ first := by
      rintro rfl
      exact absurd hletter (by decide)
    simp [hfirst, Text.after?, hne]
  rw [htext, List.cons_append, readBlocks_char htag hcomment, readBlocks_unmarked hunmarked,
    List.length_cons, Nat.add_assoc, Nat.add_comm 1]

end Draft

theorem readBlocks_pieces {ps : List Piece} (h : ∀ p ∈ ps, p.Legal) {fuel : Nat}
    (hfuel : (ps.flatMap Piece.text).length < fuel) (offset : Nat) :
    readBlocks fuel offset (ps.flatMap Piece.text) = (blocksOf offset ps, none) := by
  induction ps generalizing fuel offset with
  | nil =>
    obtain ⟨fuel, rfl⟩ := Nat.exists_eq_add_one.mpr (Nat.zero_lt_of_lt hfuel)
    rfl
  | cons p ps ih =>
    obtain ⟨hp, hps⟩ := List.forall_mem_cons.mp h
    rw [List.flatMap_cons] at hfuel ⊢
    have hlength : (ps.flatMap Piece.text).length < fuel := by
      rw [List.length_append] at hfuel
      omega
    cases p with
    | blanks cs =>
      have hunmarked : '<' ∉ cs := fun hmem => absurd (hp '<' hmem) (by decide)
      exact (readBlocks_unmarked hunmarked fuel offset _).trans (ih hps hlength _)
    | comment body =>
      obtain ⟨fuel', hfuel', hread⟩ := readBlocks_comment hp offset hfuel
      exact hread.trans (ih hps hfuel' _)
    | block d =>
      by_cases hbare : d.isBare
      · rw [Piece.text, Draft.readBlocks_bare hp.1 hbare, ih hps hlength, blocksOf, Piece.block?,
          if_pos hbare]
        rfl
      · obtain ⟨fuel, rfl⟩ := Nat.exists_eq_add_one.mpr (Nat.zero_lt_of_lt hfuel)
        have hbare' := Bool.eq_false_iff.mpr hbare
        have hlength : (ps.flatMap Piece.text).length < fuel := by
          rw [List.length_append, Piece.text, Draft.text, List.length_cons] at hfuel
          omega
        rw [Piece.text, Draft.readBlocks_text hp.1 hp.2 hbare', ih hps hlength, blocksOf,
          Piece.block?, if_neg hbare]
        rfl

def Block.custom? (b : Block) : Option CustomBlock :=
  if b.kind?.isNone then some ⟨b.tag, b.content, b.attrs, b.start⟩ else none

namespace Document

/--
The document of some blocks: its template and its script, and its styles and all other blocks in their
order.
-/
def gather (bs : List Block) : Document :=
  let regions := bs.filterMap (·.region?)
  { template := regions.find? (·.kind = .template)
    script := regions.find? (·.kind = .script)
    styles := regions.filter (·.kind = .style)
    custom := bs.filterMap (·.custom?) }

/--
A document with what some more blocks hold, none of which is one too many.
-/
def join (d more : Document) : Document :=
  { d with
    template := d.template.or more.template
    script := d.script.or more.script
    styles := d.styles ++ more.styles
    custom := d.custom ++ more.custom }

theorem join_gather_cons_custom (d : Document) {b : Block} (h : b.region? = none) (bs : List Block) :
    join { d with custom := d.custom ++ [⟨b.tag, b.content, b.attrs, b.start⟩] } (gather bs) =
      d.join (gather (b :: bs)) := by
  have hkind : b.kind? = none := by simpa [Block.region?] using h
  have hcustom : b.custom? = some ⟨b.tag, b.content, b.attrs, b.start⟩ := by
    simp [Block.custom?, hkind]
  simp [join, gather, List.filterMap_cons_none h, List.filterMap_cons_some hcustom]

theorem join_gather_cons_region {d : Document} {b : Block} {region : Region}
    (h : b.region? = some region) (htakes : d.Takes [region]) (bs : List Block) :
    (d.addRegion region).join (gather bs) = d.join (gather (b :: bs)) := by
  have hcustom : b.custom? = none := by
    obtain ⟨kind, hkind, -⟩ := Option.map_eq_some_iff.mp h
    simp [Block.custom?, hkind]
  obtain ⟨kind, content, attrs, start⟩ := region
  cases kind with
  | template =>
    have hnone : d.template = none := by simpa [Takes] using htakes.1
    simp [join, gather, addRegion, List.filterMap_cons_some h, List.filterMap_cons_none hcustom, hnone]
  | script =>
    have hnone : d.script = none := by simpa [Takes] using htakes.2
    simp [join, gather, addRegion, List.filterMap_cons_some h, List.filterMap_cons_none hcustom, hnone]
  | style =>
    simp [join, gather, addRegion, List.filterMap_cons_some h, List.filterMap_cons_none hcustom]

theorem foldlM_addBlock {bs : List Block} {d : Document} (h : d.Takes (bs.filterMap (·.region?))) :
    bs.foldlM addBlock d = .ok (d.join (gather bs)) := by
  induction bs generalizing d with
  | nil =>
    simp [join, gather, pure, Except.pure]
  | cons b bs ih =>
    rw [List.foldlM_cons]
    cases hregion : b.region? with
    | none =>
      rw [List.filterMap_cons_none hregion] at h
      rw [addBlock_of_region_eq_none hregion, ← join_gather_cons_custom d hregion]
      exact ih h
    | some region =>
      rw [List.filterMap_cons_some hregion, takes_cons] at h
      rw [(addBlock_eq_ok hregion).mpr ⟨h.1, rfl⟩, ← join_gather_cons_region hregion h.1]
      exact ih h.2

end Document

theorem countP_region (bs : List Block) (kind : RegionKind) :
    (bs.filterMap (·.region?)).countP (·.kind = kind) = bs.countP (·.kind? = some kind) := by
  induction bs with
  | nil => rfl
  | cons b bs ih =>
    rw [List.filterMap_cons, List.countP_cons, ← ih, Block.region?]
    cases b.kind? <;> simp [List.countP_cons]

theorem takes_of_counts {bs : List Block}
    (h : ∀ kind, kind ≠ .style → bs.countP (·.kind? = some kind) ≤ 1) :
    Document.Takes {} (bs.filterMap (·.region?)) := by
  simp only [Document.Takes, Option.toList_none, List.length_nil, Nat.zero_add, countP_region]
  exact ⟨h .template (by decide), h .script (by decide)⟩

/--
Whatever blocks are written, with blanks and comments between them, reading gives back these blocks with
their tags, attributes and contents, in their order, unless there is a second template or script.
-/
theorem read_pieces {ps : List Piece} (h : ∀ p ∈ ps, p.Legal)
    (hone : ∀ kind, kind ≠ .style → (blocksOf 0 ps).countP (·.kind? = some kind) ≤ 1) :
    read (String.ofList (ps.flatMap Piece.text)) = .ok (.gather (blocksOf 0 ps)) ∧
      (Document.gather (blocksOf 0 ps)).regions = (blocksOf 0 ps).filterMap (·.region?) := by
  have hread := readBlocks_pieces h (Nat.lt_succ_self _) 0
  have hfold := Document.foldlM_addBlock (takes_of_counts hone)
  have hjoin : Document.join {} (.gather (blocksOf 0 ps)) = .gather (blocksOf 0 ps) := by
    simp [Document.join, Document.gather]
  rw [hjoin] at hfold
  refine ⟨read_eq_ok.mpr ⟨blocksOf 0 ps, by rwa [String.toList_ofList], hfold⟩, ?_⟩
  have hpairwise := (pairwise_readBlocks ((ps.flatMap Piece.text).length + 1) 0
    (ps.flatMap Piece.text)).1
  rw [hread] at hpairwise
  exact Document.regions_of_foldlM_addBlock hfold hpairwise

theorem read_pieces_nested :
    read "<!--<b>--><template lang=\"x\">a<template>b</template></template>\n<style src=\"b.css\"/><docs/>" =
      .ok { template := some ⟨.template, "a<template>b</template>", [("lang", .text "x")], 10⟩
            styles := [⟨.style, "", [("src", .text "b.css")], 64⟩] } := by
  have hlang : SpacedAttr.Legal ⟨[' '], "lang", .text "x"⟩ :=
    ⟨by decide, List.all_eq_true.mp rfl, by decide, List.all_eq_true.mp rfl,
      fun s hs => by cases hs; decide⟩
  have hsrc : SpacedAttr.Legal ⟨[' '], "src", .text "b.css"⟩ :=
    ⟨by decide, List.all_eq_true.mp rfl, by decide, List.all_eq_true.mp rfl,
      fun s hs => by cases hs; decide⟩
  have hbody : Nested "template".toList ['b'] := .unmarked_append ['b'] (by decide) .nil
  have hopening : IsOpening "template".toList [] "<template>".toList :=
    ⟨"template".toList, List.forall₂_same.mpr (by simp [Text.sameLetter]), by simp, by simp, rfl⟩
  have hinner : Nested "template".toList "a<template>b</template>".toList :=
    .unmarked_append ['a'] (by decide)
      (.element hopening rfl hbody (isClosing_closing _) .nil)
  have htemplate : Piece.Legal (.block ⟨"template".toList, [⟨[' '], "lang", .text "x"⟩], [],
      some "a<template>b</template>".toList⟩) := by
    refine ⟨⟨⟨'t', "emplate".toList, rfl, rfl, List.all_eq_true.mp rfl⟩, by simpa using hlang, by simp,
      by simp, ?_⟩, ?_⟩
    · rintro _ ⟨⟩
      exact hinner
    · simp [Draft.Plain]
  have hstyle : Piece.Legal (.block ⟨"style".toList, [⟨[' '], "src", .text "b.css"⟩], [], none⟩) :=
    ⟨⟨⟨'s', "tyle".toList, rfl, rfl, List.all_eq_true.mp rfl⟩, by simpa using hsrc, by simp, by simp,
      by simp⟩, by simp [Draft.Plain]⟩
  have hdocs : Piece.Legal (.block ⟨"docs".toList, [], [], none⟩) :=
    ⟨⟨⟨'d', "ocs".toList, rfl, rfl, List.all_eq_true.mp rfl⟩, by simp, by simp, by simp, by simp⟩,
      by simp [Draft.Plain]⟩
  have hlegal : ∀ p ∈ ([.comment "<b>".toList,
      .block ⟨"template".toList, [⟨[' '], "lang", .text "x"⟩], [], some "a<template>b</template>".toList⟩,
      .blanks ['\n'], .block ⟨"style".toList, [⟨[' '], "src", .text "b.css"⟩], [], none⟩,
      .block ⟨"docs".toList, [], [], none⟩] : List Piece), p.Legal := by
    simp only [List.forall_mem_cons]
    have hcomment : ¬ ['-', '-', '>'] <:+: "<b>".toList := by decide
    have hblanks : ∀ c ∈ ['\n'], Text.isBlank c := List.all_eq_true.mp rfl
    exact ⟨hcomment, htemplate, hblanks, hstyle, hdocs, List.forall_mem_nil _⟩
  have hread := (read_pieces hlegal fun kind _ => by cases kind <;> decide).1
  exact hread

/-!
Neither a tag that closes itself right behind its name nor the end of a tag in a value is seen as such.
-/

example : read "<style/>" = .ok {} := by decide +kernel

example : read "<style title=\"a>b\">c</style>" =
    .ok { styles := [⟨.style, "b\">c", [("title", .present), ("a", .present)], 0⟩] } := by
  decide +kernel

end Polyglot.Component
