import Polyglot.Proofs.Component.Appended

/-!
Reading a document turn by turn: each turn passes over a comment or reads a block, wherever the text
stands. A text that ends with a block is read as it was when more follows it, and what follows is read
as a text of its own.
-/

namespace Polyglot.Component

def Block.moved (f : Nat → Nat) (b : Block) : Block :=
  { b with start := f b.start }

/--
What the reader does at the front of a text: nothing more is there, a comment is passed over, or a block
is read, which starts that far in the text and has to be closed.
-/
inductive Turn where
  | done
  | skip (rest : List Char)
  | block (b : Block) (rest : List Char)
  | unclosed (tag : String) (start : Nat)

def turn (cs : List Char) : Turn :=
  match findOpenTag? cs with
  | none => .done
  | some (before, t) =>
    match Text.cut? ['<', '!', '-', '-'] before with
    | some (text, _) => .skip (skipComment (cs.drop (text.length + 4)))
    | none =>
      let block (content attrs : List Char) : Block :=
        ⟨String.ofList t.tag, String.ofList content, readAttributes attrs, before.length⟩
      if endsWithSlash t.attrs then .block (block [] (Text.trimRight t.attrs).dropLast) t.rest
      else match findClose? t.tag t.rest with
        | some (content, rest) => .block (block content t.attrs) rest
        | none => .unclosed (String.ofList t.tag) before.length

theorem readBlocks_turn (fuel offset : Nat) (cs : List Char) :
    readBlocks (fuel + 1) offset cs =
      match turn cs with
      | .done => ([], none)
      | .skip rest => readBlocks fuel (offset + (cs.length - rest.length)) rest
      | .block b rest =>
        let more := readBlocks fuel (offset + (cs.length - rest.length)) rest
        (b.moved (offset + ·) :: more.1, more.2)
      | .unclosed tag start => ([], some (.unclosed tag (offset + start))) := by
  rw [readBlocks, turn]
  cases findOpenTag? cs with
  | none => rfl
  | some found =>
    obtain ⟨before, t⟩ := found
    dsimp only
    cases Text.cut? ['<', '!', '-', '-'] before with
    | some cut => rfl
    | none =>
      dsimp only
      split
      · rfl
      · cases findClose? t.tag t.rest <;> rfl

variable {cs rest : List Char} {b : Block}

theorem turn_eq_skip : turn cs = .skip rest ↔ ∃ before t cut, findOpenTag? cs = some (before, t) ∧
    Text.cut? ['<', '!', '-', '-'] before = some cut ∧
      skipComment (cs.drop (cut.1.length + 4)) = rest := by
  constructor
  · intro h
    rw [turn] at h
    cases hfind : findOpenTag? cs with
    | none => simp [hfind] at h
    | some found =>
      rw [hfind] at h
      dsimp only at h
      split at h
      · next cut hcut =>
        cases h
        exact ⟨_, _, _, rfl, hcut, rfl⟩
      · split at h
        · cases h
        · split at h <;> cases h
  · rintro ⟨before, t, cut, hfind, hcut, rfl⟩
    rw [turn, hfind]
    simp only [hcut]

def OpenTag.Closes (t : OpenTag) (content attrs rest : List Char) : Prop :=
  if endsWithSlash t.attrs then
    content = [] ∧ attrs = (Text.trimRight t.attrs).dropLast ∧ rest = t.rest
  else findClose? t.tag t.rest = some (content, rest) ∧ attrs = t.attrs

theorem turn_eq_block : turn cs = .block b rest ↔ ∃ before t content attrs,
    findOpenTag? cs = some (before, t) ∧ Text.cut? ['<', '!', '-', '-'] before = none ∧
      t.Closes content attrs rest ∧
      b = ⟨String.ofList t.tag, String.ofList content, readAttributes attrs, before.length⟩ := by
  constructor
  · intro h
    rw [turn] at h
    cases hfind : findOpenTag? cs with
    | none => simp [hfind] at h
    | some found =>
      rw [hfind] at h
      dsimp only at h
      split at h
      · cases h
      · next hcut =>
        split at h
        · next hslash =>
          cases h
          exact ⟨_, _, [], _, rfl, hcut, by rw [OpenTag.Closes, if_pos hslash]; simp, rfl⟩
        · next hslash =>
          split at h
          · next hclose =>
            cases h
            exact ⟨_, _, _, _, rfl, hcut, by rw [OpenTag.Closes, if_neg hslash]; exact ⟨hclose, rfl⟩, rfl⟩
          · cases h
  · rintro ⟨before, t, content, attrs, hfind, hcut, hcloses, rfl⟩
    rw [turn, hfind]
    rw [OpenTag.Closes] at hcloses
    dsimp only
    rw [hcut]
    dsimp only
    split
    · next hslash =>
      rw [if_pos hslash] at hcloses
      obtain ⟨rfl, rfl, rfl⟩ := hcloses
      rfl
    · next hslash =>
      rw [if_neg hslash] at hcloses
      obtain ⟨hclose, rfl⟩ := hcloses
      rw [hclose]

theorem OpenTag.Closes.length {t : OpenTag} {content attrs : List Char}
    (h : t.Closes content attrs rest) : rest.length ≤ t.rest.length := by
  rw [OpenTag.Closes] at h
  split at h
  · rw [h.2.2]
  · exact findClose_length h.1

theorem OpenTag.Closes.more {t : OpenTag} {content attrs : List Char}
    (h : t.Closes content attrs rest) (htag : IsTagName t.tag) (more : List Char) :
    OpenTag.Closes { t with rest := t.rest ++ more } content attrs (rest ++ more) := by
  rw [OpenTag.Closes] at h ⊢
  split at h
  · next hslash =>
    obtain ⟨rfl, rfl, rfl⟩ := h
    rw [if_pos hslash]
    exact ⟨rfl, rfl, rfl⟩
  · next hslash =>
    rw [if_neg hslash]
    exact ⟨findClose_more htag h.1 more, h.2⟩

/-!
A turn that is not the last leaves less of the text, and a block starts in what it takes.
-/

theorem turn_skip_length (h : turn cs = .skip rest) : rest.length < cs.length := by
  obtain ⟨before, t, cut, hfind, -, rfl⟩ := turn_eq_skip.mp h
  have hlength := findOpenTag_length hfind
  have hskip := skipComment_length (cs.drop (cut.1.length + 4))
  rw [List.length_drop] at hskip
  omega

theorem turn_block_length (h : turn cs = .block b rest) : b.start + rest.length < cs.length := by
  obtain ⟨before, t, content, attrs, hfind, -, hcloses, rfl⟩ := turn_eq_block.mp h
  exact Nat.lt_of_le_of_lt (Nat.add_le_add_left hcloses.length _) (findOpenTag_length hfind)

theorem skipComment_more (h : skipComment cs ≠ []) (more : List Char) :
    skipComment (cs ++ more) = skipComment cs ++ more := by
  rw [skipComment] at h ⊢
  cases hcut : Text.cut? ['-', '-', '>'] cs with
  | none => simp [hcut] at h
  | some cut => rw [skipComment, Text.cut_append hcut, hcut]

theorem isTagName_of_findOpenTag {before : List Char} {t : OpenTag}
    (h : findOpenTag? cs = some (before, t)) : IsTagName t.tag := by
  obtain ⟨behind, -, hhere⟩ := openTagHere_of_findOpenTag h
  exact (openTagHere_eq_some.mp hhere).2.1

/-!
A turn that ends inside a text is the same when more follows the text.
-/

theorem turn_skip_more (h : turn cs = .skip rest) (hne : rest ≠ []) (more : List Char) :
    turn (cs ++ more) = .skip (rest ++ more) := by
  obtain ⟨before, t, cut, hfind, hcut, rfl⟩ := turn_eq_skip.mp h
  have hle : cut.1.length + 4 ≤ cs.length := by
    obtain ⟨behind, rfl⟩ := prefix_of_findOpenTag hfind
    rw [Text.eq_append_of_cut hcut]
    simp
  refine turn_eq_skip.mpr ⟨before, _, cut, findOpenTag_more hfind more, hcut, ?_⟩
  rw [List.drop_append_of_le_length hle, skipComment_more hne]

theorem turn_block_more (h : turn cs = .block b rest) (more : List Char) :
    turn (cs ++ more) = .block b (rest ++ more) := by
  obtain ⟨before, t, content, attrs, hfind, hcut, hcloses, rfl⟩ := turn_eq_block.mp h
  exact turn_eq_block.mpr ⟨before, _, content, attrs, findOpenTag_more hfind more, hcut,
    hcloses.more (isTagName_of_findOpenTag hfind) more, rfl⟩

def extents : Nat → Nat → List Char → List (Block × Nat)
  | 0, _, _ => []
  | fuel + 1, offset, cs =>
    match turn cs with
    | .skip rest => extents fuel (offset + (cs.length - rest.length)) rest
    | .block b rest =>
      let behind := offset + (cs.length - rest.length)
      (b.moved (offset + ·), behind) :: extents fuel behind rest
    | _ => []

theorem readBlocks_nil (fuel offset : Nat) : readBlocks fuel offset [] = ([], none) := by
  cases fuel <;> rfl

theorem extents_nil (fuel offset : Nat) : extents fuel offset [] = [] := by
  cases fuel <;> rfl

theorem readBlocks_fuel {fuel fuel' : Nat} (offset : Nat) (h : cs.length < fuel)
    (h' : cs.length < fuel') : readBlocks fuel offset cs = readBlocks fuel' offset cs := by
  induction fuel generalizing fuel' offset cs with
  | zero => cases h
  | succ fuel ih =>
    obtain ⟨fuel', rfl⟩ := Nat.exists_eq_add_one.mpr (Nat.zero_lt_of_lt h')
    rw [readBlocks_turn, readBlocks_turn]
    cases hturn : turn cs with
    | done => rfl
    | unclosed tag start => rfl
    | skip rest =>
      have := turn_skip_length hturn
      exact ih _ (by omega) (by omega)
    | block b rest =>
      have := turn_block_length hturn
      dsimp only
      rw [ih _ (show rest.length < fuel by omega) (show rest.length < fuel' by omega)]

theorem readBlocks_moved (fuel k offset : Nat) (cs : List Char) :
    (readBlocks fuel (k + offset) cs).1 = (readBlocks fuel offset cs).1.map (Block.moved (k + ·)) ∧
      ((readBlocks fuel (k + offset) cs).2 = none ↔ (readBlocks fuel offset cs).2 = none) := by
  induction fuel generalizing offset cs with
  | zero => exact ⟨rfl, .rfl⟩
  | succ fuel ih =>
    rw [readBlocks_turn, readBlocks_turn]
    cases turn cs with
    | done => exact ⟨rfl, .rfl⟩
    | unclosed tag start => exact ⟨rfl, by simp⟩
    | skip rest =>
      dsimp only
      rw [Nat.add_assoc]
      exact ih _ _
    | block b rest =>
      dsimp only
      rw [Nat.add_assoc, List.map_cons, (ih _ _).1]
      refine ⟨?_, (ih _ _).2⟩
      simp [Block.moved, Nat.add_assoc]

theorem start_lt_of_mem_readBlocks {fuel offset : Nat} (h : b ∈ (readBlocks fuel offset cs).1) :
    b.start < offset + cs.length := by
  induction fuel generalizing offset cs with
  | zero => cases h
  | succ fuel ih =>
    rw [readBlocks_turn] at h
    cases hturn : turn cs with
    | done => simp [hturn] at h
    | unclosed tag start => simp [hturn] at h
    | skip rest =>
      have hlength := turn_skip_length hturn
      rw [hturn] at h
      have := ih h
      omega
    | block first rest =>
      have hlength := turn_block_length hturn
      rw [hturn] at h
      rcases List.mem_cons.mp h with rfl | h
      · simp only [Block.moved]
        omega
      · have := ih h
        omega

theorem readBlocks_more {fuel offset : Nat}
    (hend : (extents fuel offset cs).getLast?.map (·.2) = some (offset + cs.length))
    (hread : (readBlocks fuel offset cs).2 = none) (more : List Char) {fuel' : Nat}
    (hfuel : (cs ++ more).length < fuel') :
    readBlocks fuel' offset (cs ++ more) =
      ((readBlocks fuel offset cs).1 ++
          (readBlocks (more.length + 1) (offset + cs.length) more).1,
        (readBlocks (more.length + 1) (offset + cs.length) more).2) := by
  induction fuel generalizing offset cs fuel' with
  | zero => cases hend
  | succ fuel ih =>
    obtain ⟨fuel', rfl⟩ := Nat.exists_eq_add_one.mpr (Nat.zero_lt_of_lt hfuel)
    have hlength (rest : List Char) : (cs ++ more).length - (rest ++ more).length =
        cs.length - rest.length := by
      rw [List.length_append, List.length_append, Nat.add_sub_add_right]
    rw [readBlocks_turn] at hread ⊢
    rw [readBlocks_turn]
    rw [extents] at hend
    rw [List.length_append] at hfuel
    cases hturn : turn cs with
    | done => simp [hturn] at hend
    | unclosed tag start => simp [hturn] at hend
    | skip rest =>
      have hlt := turn_skip_length hturn
      have hbehind : offset + (cs.length - rest.length) + rest.length = offset + cs.length := by omega
      rw [hturn] at hend hread
      rw [← hbehind] at hend ⊢
      dsimp only at hend
      have hne : rest ≠ [] := by
        rintro rfl
        rw [extents_nil] at hend
        cases hend
      rw [turn_skip_more hturn hne more]
      dsimp only
      rw [hlength]
      exact ih hend hread (by rw [List.length_append]; omega)
    | block b rest =>
      have hlt := turn_block_length hturn
      have hbehind : offset + (cs.length - rest.length) + rest.length = offset + cs.length := by omega
      rw [hturn] at hend hread
      rw [turn_block_more hturn more]
      dsimp only at hend hread ⊢
      rw [hlength]
      have hfuel : (rest ++ more).length < fuel' := by
        rw [List.length_append]
        omega
      by_cases hlast : extents fuel (offset + (cs.length - rest.length)) rest = []
      · -- The block is the last one, so that nothing of the text is left behind it.
        rw [hlast, List.getLast?_singleton, Option.map_some] at hend
        have hnone : rest = [] := by
          have := Option.some.inj hend
          exact List.length_eq_zero_iff.mp (by omega)
        subst hnone
        rw [readBlocks_nil, List.nil_append, List.length_nil, Nat.sub_zero]
        rw [List.nil_append] at hfuel
        rw [readBlocks_fuel _ hfuel (Nat.lt_succ_self _)]
        rfl
      · rw [List.getLast?_cons_of_ne_nil hlast, ← hbehind] at hend
        rw [ih hend hread hfuel, hbehind]
        rfl

end Polyglot.Component

/-!
Comments between blocks: behind a text that ends with a block a comment makes no difference but to where
the blocks behind it start.
-/

namespace Polyglot.Component

def Region.moved (f : Nat → Nat) (region : Region) : Region :=
  { region with start := f region.start }

def CustomBlock.moved (f : Nat → Nat) (b : CustomBlock) : CustomBlock :=
  { b with start := f b.start }

/--
A document with its blocks at other places.
-/
def Document.moved (f : Nat → Nat) (d : Document) : Document :=
  { d with
    template := d.template.map (.moved f)
    script := d.script.map (.moved f)
    styles := d.styles.map (.moved f)
    custom := d.custom.map (.moved f) }

theorem addBlock_moved (f : Nat → Nat) (d : Document) (b : Block) :
    (d.moved f).addBlock (b.moved f) = (d.addBlock b).map (.moved f) := by
  have htag : (b.moved f).tag = b.tag := rfl
  rw [Document.addBlock, Document.addBlock, htag]
  generalize lowerTag b.tag.toList = name
  split
  · cases h : d.template <;> simp [Document.moved, Region.moved, Block.moved, Except.map, h]
  · cases h : d.script <;> simp [Document.moved, Region.moved, Block.moved, Except.map, h]
  · simp [Document.moved, Region.moved, Block.moved, Except.map]
  · simp [Document.moved, CustomBlock.moved, Block.moved, Except.map]

theorem foldlM_moved (f : Nat → Nat) (bs : List Block) (d : Document) :
    (bs.map (Block.moved f)).foldlM Document.addBlock (d.moved f) =
      (bs.foldlM Document.addBlock d).map (.moved f) := by
  induction bs generalizing d with
  | nil => rfl
  | cons b bs ih =>
    rw [List.map_cons, List.foldlM_cons, List.foldlM_cons, addBlock_moved]
    cases d.addBlock b with
    | error e => rfl
    | ok d' => exact ih d'

/--
The text is empty, or it is read and its last block ends where the text does.
-/
def EndsWithBlock (s : String) : Prop :=
  s = "" ∨ (∃ d, read s = .ok d) ∧
    (extents (s.toList.length + 1) 0 s.toList).getLast?.map (·.2) = some s.toList.length

variable {a b c : String}

theorem readBlocks_of_ends (ha : EndsWithBlock a) (more : List Char) {fuel : Nat}
    (hfuel : (a.toList ++ more).length < fuel) :
    readBlocks fuel 0 (a.toList ++ more) =
      ((readBlocks (a.toList.length + 1) 0 a.toList).1 ++
          (readBlocks (more.length + 1) a.toList.length more).1,
        (readBlocks (more.length + 1) a.toList.length more).2) := by
  rcases ha with rfl | ⟨⟨d, hread⟩, hend⟩
  · exact readBlocks_fuel 0 hfuel (Nat.lt_succ_self _)
  · obtain ⟨bs, hbs, -⟩ := read_eq_ok.mp hread
    have hmore := readBlocks_more (by rwa [Nat.zero_add]) (by rw [hbs]) more hfuel
    rwa [Nat.zero_add] at hmore

theorem readBlocks_between (ha : EndsWithBlock a) (hc : ¬ ['-', '-', '>'] <:+: c.toList)
    (more : List Char) :
    let comment := (Piece.comment c.toList).text
    let f := fun start => if start < a.length then start else start + comment.length
    let found := readBlocks ((a.toList ++ more).length + 1) 0 (a.toList ++ more)
    let found' := readBlocks ((a.toList ++ (comment ++ more)).length + 1) 0
      (a.toList ++ (comment ++ more))
    found'.1 = found.1.map (Block.moved f) ∧ (found'.2 = none ↔ found.2 = none) := by
  intro comment f found found'
  obtain ⟨fuel, hfuel, hskip⟩ :=
    readBlocks_comment hc a.toList.length (Nat.lt_succ_self (comment ++ more).length)
  rw [Nat.add_comm a.toList.length, readBlocks_fuel _ hfuel (Nat.lt_succ_self _)] at hskip
  obtain ⟨hmoved, herror⟩ := readBlocks_moved (more.length + 1) comment.length a.toList.length more
  have hstay : (readBlocks (a.toList.length + 1) 0 a.toList).1.map (Block.moved f) =
      (readBlocks (a.toList.length + 1) 0 a.toList).1 := by
    refine (List.map_congr_left fun block hmem => ?_).trans (List.map_id _)
    have hlt := start_lt_of_mem_readBlocks hmem
    rw [Nat.zero_add, String.length_toList] at hlt
    have hstart : f block.start = block.start := if_pos hlt
    simp [Block.moved, hstart]
  have hmove : (readBlocks (more.length + 1) a.toList.length more).1.map (Block.moved f) =
      (readBlocks (more.length + 1) a.toList.length more).1.map (Block.moved (comment.length + ·)) := by
    refine List.map_congr_left fun block hmem => ?_
    have hle := (pairwise_readBlocks _ _ _).2 block hmem
    rw [String.length_toList] at hle
    have hstart : f block.start = comment.length + block.start :=
      (if_neg (Nat.not_lt.mpr hle)).trans (Nat.add_comm _ _)
    simp [Block.moved, hstart]
  have hfound : found = _ := readBlocks_of_ends ha more (Nat.lt_succ_self _)
  have hfound' : found' = _ := readBlocks_of_ends ha (comment ++ more) (Nat.lt_succ_self _)
  rw [hfound, hfound', hskip, hmoved, List.map_append, hstay, hmove]
  exact ⟨rfl, herror⟩

theorem toOption_read (s : String) : (read s).toOption =
    if (readBlocks (s.toList.length + 1) 0 s.toList).2 = none then
      ((readBlocks (s.toList.length + 1) 0 s.toList).1.foldlM Document.addBlock {}).toOption
    else none := by
  rw [read]
  dsimp only
  cases (readBlocks (s.toList.length + 1) 0 s.toList).1.foldlM Document.addBlock {} with
  | error e => cases (readBlocks (s.toList.length + 1) 0 s.toList).2 <;> rfl
  | ok d => cases (readBlocks (s.toList.length + 1) 0 s.toList).2 <;> rfl

/--
Commented text behind a text that ends with a block is invisible: the document is read if it is read
without the comment, and then it is the same, its blocks behind the comment moved by its length.
-/
theorem read_comment_between (ha : EndsWithBlock a) (hc : ¬ ['-', '-', '>'] <:+: c.toList) (b : String) :
    (read (a ++ "<!--" ++ c ++ "-->" ++ b)).toOption =
      (read (a ++ b)).toOption.map (Document.moved fun start =>
        if start < a.length then start else start + ("<!--" ++ c ++ "-->").length) := by
  have hlength : (Piece.comment c.toList).text.length = ("<!--" ++ c ++ "-->").length := by
    simp only [Piece.text, String.length_append, List.length_append, String.length_toList]
    rfl
  obtain ⟨hblocks, herror⟩ := readBlocks_between ha hc b.toList
  rw [hlength] at hblocks
  have htext : (a ++ "<!--" ++ c ++ "-->" ++ b).toList =
      a.toList ++ ((Piece.comment c.toList).text ++ b.toList) := by
    simp [Piece.text]
  rw [toOption_read, toOption_read, htext, String.toList_append, hblocks]
  by_cases hnone : (readBlocks ((a.toList ++ b.toList).length + 1) 0 (a.toList ++ b.toList)).2 = none
  · rw [if_pos hnone, if_pos (herror.mpr hnone)]
    have hfold := foldlM_moved (fun start =>
      if start < a.length then start else start + ("<!--" ++ c ++ "-->").length)
      (readBlocks ((a.toList ++ b.toList).length + 1) 0 (a.toList ++ b.toList)).1 {}
    change List.foldlM Document.addBlock {} _ = _ at hfold
    rw [hfold]
    cases List.foldlM Document.addBlock {} _ <;> rfl
  · rw [if_neg hnone, if_neg (mt herror.mp hnone)]
    rfl

/--
A script tag and the beginning of another comment in the comment, and a tag that is not ended.
-/
theorem read_comment_between_tags : EndsWithBlock "<a>x</A >" ∧
    ¬ ['-', '-', '>'] <:+: " <script> <!-- <b".toList ∧
    (read ("<a>x</A >" ++ "<!--" ++ " <script> <!-- <b" ++ "-->" ++ "y<style>p</style>")).toOption =
      some { custom := [⟨"a", "x", [], 0⟩], styles := [⟨.style, "p", [], 34⟩] } := by
  have hread : read "<a>x</A >" = .ok { custom := [⟨"a", "x", [], 0⟩] } := by decide +kernel
  have hends : EndsWithBlock "<a>x</A >" := .inr ⟨⟨_, hread⟩, by decide +kernel⟩
  have hcomment : ¬ ['-', '-', '>'] <:+: " <script> <!-- <b".toList := by decide
  have hplain : read ("<a>x</A >" ++ "y<style>p</style>") =
      .ok { custom := [⟨"a", "x", [], 0⟩], styles := [⟨.style, "p", [], 10⟩] } := by decide +kernel
  refine ⟨hends, hcomment, ?_⟩
  rw [read_comment_between hends hcomment, hplain]
  rfl

end Polyglot.Component
