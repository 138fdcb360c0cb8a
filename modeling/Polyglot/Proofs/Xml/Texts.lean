import Polyglot.Proofs.Xml.Mapping

/-!
Where the texts of a tree are found in its value. The text in front of the first child of an element is
in the value of the element, at every level; what stands behind a child is nowhere.
-/

namespace Polyglot

theorem Value.find_append_of_eq_some {entries : Fields} {key : String} {v : Value}
    (h : find? entries key = some v) (more : Fields) : find? (entries ++ more) key = some v := by
  obtain ⟨e, he, rfl⟩ := Option.map_eq_some_iff.mp h
  rw [find?, List.find?_append, he]
  rfl

namespace Xml

/--
The element at a path of positions among children.
-/
def Element.at? : Element → List Nat → Option Element
  | e, [] => some e
  | e, i :: path => e.children[i]?.bind fun c => c.1.at? path

/--
A tree without the texts that stand behind its elements.
-/
def Element.untailed : Element → Element
  | .mk tag attrs text children => .mk tag attrs text (all children)
where
  all : List (Element × List Char) → List (Element × List Char)
    | [] => []
    | (e, _) :: rest => (e.untailed, []) :: all rest

namespace Mapping

variable {o : Options} {found : List (String × Value)} {tag : String}

def childValue? (tags : List String) (i : Nat) (w : Value) : Option Value :=
  tags[i]?.bind fun tag =>
    match w.get? tag with
    | some (.list vs) => vs[(tags.take i).count tag]?
    | other => other

/--
In the value of an element, the value of the element at a path below it.
-/
def valueAt? : Element → List Nat → Value → Option Value
  | _, [], w => some w
  | e, i :: path, w =>
    e.children[i]?.bind fun c =>
      (childValue? (e.children.map (·.1.tag)) i w).bind (valueAt? c.1 path)

def ownText? : Value → Option Value
  | .map entries => Value.find? entries "#text"
  | w => some w

/--
A value shows a text if it has it converted for its own one. For a blank text it has none, or is empty.
-/
def ShowsText (o : Options) (text : List Char) (w : Value) : Prop :=
  if Text.allBlank text then ownText? w = none ∨ w = .str ""
  else ∃ v, convert o (Text.trim text) = .ok v ∧ ownText? w = some v

section Ranks

theorem valuesOf_cons (tag : String) (c : String × Value) (found : List (String × Value)) :
    valuesOf tag (c :: found) = (if c.1 = tag then [c.2] else []) ++ valuesOf tag found := by
  rw [valuesOf, List.filterMap_cons]
  split <;> simp_all [valuesOf]

theorem getElem?_valuesOf {i : Nat} {v : Value} (h : found[i]? = some (tag, v)) :
    (valuesOf tag found)[((found.map (·.1)).take i).count tag]? = some v := by
  induction found generalizing i with
  | nil => cases h
  | cons c found ih =>
    rw [valuesOf_cons]
    cases i with
    | zero =>
      cases h
      simp
    | succ i =>
      rw [List.getElem?_cons_succ] at h
      rw [List.map_cons, List.take_succ_cons, List.count_cons]
      by_cases htag : c.1 = tag
      · simpa [htag] using ih h
      · simpa [htag] using ih h

end Ranks

theorem ownText_of_convert {text : List Char} {v : Value} (h : convert o text = .ok v) :
    ownText? v = some v := by
  cases v with
  | map entries => exact absurd rfl ((simple_of_convert h).2 entries)
  | _ => rfl

theorem Maps.not_isList {e : Element} {w : Value} (h : Maps o e w) : ¬ IsList w := by
  cases h with
  | leaf _ hv =>
    split at hv
    · rw [hv]
      rintro ⟨vs, ⟨⟩⟩
    · exact not_isList_convert hv
  | node => rintro ⟨vs, ⟨⟩⟩

theorem Maps.showsText {e : Element} {w : Value} (he : e.Named) (h : Maps o e w) :
    ShowsText o e.text w := by
  cases h with
  | leaf _ hv =>
    rw [ShowsText, Element.text]
    split
    · next hblank =>
      rw [if_pos hblank] at hv
      exact .inr hv
    · next hblank =>
      rw [if_neg hblank] at hv
      exact ⟨_, hv, ownText_of_convert hv⟩
  | @node tag attrs text children marked own vs _ hmarked _ hown =>
    obtain ⟨-, -, hchildren⟩ := he
    have hnone : ∀ e ∈ marked ++ entriesOf ((children.map (·.1.tag)).zip vs),
        e.1.isText "#text" = false := by
      intro e he
      rcases List.mem_append.mp he with he | he
      · exact (marked_ne (by simp) hmarked he).1
      · obtain ⟨c, hc, heq⟩ := mem_entriesOf he
        obtain ⟨child, hchild, htag⟩ := List.mem_map.mp (List.of_mem_zip hc).1
        rw [heq, ← htag, Value.isText, beq_eq_false_iff_ne]
        intro hkey
        exact ((hchildren child hchild).tag '#' (by rw [← hkey]; rfl)).2 rfl
    rw [ShowsText, Element.text, ownText?, Value.find_append_of_not_text hnone]
    split
    · next hblank =>
      rw [if_pos hblank] at hown
      rw [hown]
      exact .inl rfl
    · next hblank =>
      rw [if_neg hblank] at hown
      obtain ⟨v, hv, rfl⟩ := hown
      exact ⟨v, hv, rfl⟩

theorem childValue_of_folded {tags : List String} {i : Nat} {w v : Value} {vs : List Value}
    (htag : tags[i]? = some tag) (hfind : w.get? tag = some (folded vs))
    (hrank : vs[(tags.take i).count tag]? = some v) (hlist : ¬ IsList v) : childValue? tags i w = some v := by
  rw [childValue?, htag, Option.bind_some, hfind]
  cases vs with
  | nil => cases hrank
  | cons first more =>
    cases more with
    | nil =>
      obtain rfl : first = v := by
        cases hcount : (tags.take i).count tag with
        | zero => rw [hcount] at hrank; exact Option.some.inj hrank
        | succ n => rw [hcount] at hrank; cases hrank
      rw [folded]
      cases first with
      | list ws => exact absurd ⟨ws, rfl⟩ hlist
      | _ => rfl
    | cons second more => exact hrank

theorem Maps.child {e : Element} {w : Value} (he : e.Named) (h : Maps o e w) {i : Nat}
    {c : Element × List Char} (hc : e.children[i]? = some c) :
    ∃ v, childValue? (e.children.map (·.1.tag)) i w = some v ∧ Maps o c.1 v := by
  cases h with
  | leaf => cases hc
  | @node tag attrs text children marked own vs _ hmarked hvalues _ =>
    obtain ⟨-, -, hchildren⟩ := he
    rw [Element.children] at hc ⊢
    have hlength := hvalues.length_eq
    obtain ⟨hi, hget⟩ := List.getElem?_eq_some_iff.mp hc
    have hv : Maps o c.1 vs[i] := hget ▸ hvalues.get hi (hlength ▸ hi)
    have htag : (children.map (·.1.tag))[i]? = some c.1.tag := by rw [List.getElem?_map, hc]; rfl
    let found := (children.map (·.1.tag)).zip vs
    have htags : found.map (·.1) = children.map (·.1.tag) :=
      List.map_fst_zip (by rw [List.length_map]; exact Nat.le_of_eq hlength)
    have hentry : found[i]? = some (c.1.tag, vs[i]) := by
      rw [List.getElem?_zip_eq_some]
      exact ⟨htag, List.getElem?_eq_getElem _⟩
    have hrank : (valuesOf c.1.tag found)[((children.map (·.1.tag)).take i).count c.1.tag]? =
        some vs[i] := by
      rw [← htags]
      exact getElem?_valuesOf hentry
    have hfind : Value.find? (marked ++ entriesOf found ++ own) c.1.tag =
        some (folded (valuesOf c.1.tag found)) := by
      have hname := (hchildren c (List.mem_of_getElem? hc)).tag
      rw [List.append_assoc,
        Value.find_append_of_not_text fun e he => (marked_ne (fun d hd => (hname d hd).1) hmarked he).1]
      refine Value.find_append_of_eq_some ?_ own
      rw [entriesOf, Value.find_map, htags, if_pos]
      exact List.mem_eraseDups.mpr (List.mem_of_getElem? htag)
    exact ⟨vs[i], childValue_of_folded htag hfind hrank hv.not_isList, hv⟩

theorem Maps.at {e : Element} {w : Value} (he : e.Named) (h : Maps o e w) {path : List Nat}
    {e' : Element} (hat : e.at? path = some e') :
    ∃ w', valueAt? e path w = some w' ∧ e'.Named ∧ Maps o e' w' := by
  induction path generalizing e w with
  | nil =>
    cases hat
    exact ⟨w, rfl, he, h⟩
  | cons i path ih =>
    obtain ⟨c, hc, hat⟩ := Option.bind_eq_some_iff.mp hat
    obtain ⟨v, hv, hmaps⟩ := h.child he hc
    have hnamed : c.1.Named := by
      obtain ⟨-, -, hchildren⟩ := he
      exact hchildren c (List.mem_of_getElem? hc)
    obtain ⟨w', hw', he', hmaps'⟩ := ih hnamed hmaps hat
    exact ⟨w', by rw [valueAt?, hc, Option.bind_some, hv, Option.bind_some, hw'], he', hmaps'⟩

section Tails

theorem tag_untailed (e : Element) : e.untailed.tag = e.tag := by
  cases e
  rfl

theorem ofChildren_untailed {children : List (Element × List Char)}
    (h : ∀ c ∈ children, ofElement o c.1.untailed = ofElement o c.1) (entries : Fields) :
    ofElement.ofChildren o entries (Element.untailed.all children) =
      ofElement.ofChildren o entries children := by
  induction children generalizing entries with
  | nil => rfl
  | cons c children ih =>
    obtain ⟨hc, hchildren⟩ := List.forall_mem_cons.mp h
    obtain ⟨e, tail⟩ := c
    rw [Element.untailed.all, ofElement.ofChildren, ofElement.ofChildren, hc, tag_untailed]
    cases ofElement o e with
    | error err => rfl
    | ok v => exact ih hchildren _

theorem ofElement_untailed (o : Options) (e : Element) : ofElement o e.untailed = ofElement o e := by
  induction e using Element.induction with
  | h tag attrs text children ih =>
    have hempty : (Element.untailed.all children).isEmpty = children.isEmpty := by
      cases children <;> rfl
    rw [Element.untailed, ofElement, ofElement, hempty]
    simp only [ofChildren_untailed ih]

end Tails

/--
The value of a tree has the text of each element, in front of the first child, in the value at the place
of that element, and is the same without all texts that stand behind a child.
-/
theorem texts_of_toValue (hmark : o.attributeMark = .str "@_") (hkey : o.textKey = .str "#text")
    {e : Element} (he : e.Named) {v : Value} (h : toValue o e = .ok v) :
    (∃ w, v = .map [(.str e.tag, w)] ∧ ∀ path e', e.at? path = some e' →
      ∃ w', valueAt? e path w = some w' ∧ ShowsText o e'.text w') ∧
    toValue o e.untailed = .ok v := by
  constructor
  · obtain ⟨w, hw, rfl⟩ := map_eq_ok.mp h
    have hmaps := (ofElement_eq_ok hmark hkey he).mp hw
    refine ⟨w, rfl, fun path e' hat => ?_⟩
    obtain ⟨w', hw', he', hmaps'⟩ := hmaps.at he hat
    exact ⟨w', hw', hmaps'.showsText he'⟩
  · rw [toValue, ofElement_untailed, tag_untailed]
    exact h

def mixed : Element :=
  .mk "a" [] "s".toList [(.mk "b" [] "1".toList [], "t".toList)]

theorem mixed_texts : ∃ w, toValue {} mixed = .ok (.map [(.str "a", w)]) ∧ ownText? w = some (.str "s") ∧
    valueAt? mixed [0] w = some (.int 1) ∧ mixed.untailed ≠ mixed ∧
    toValue {} mixed.untailed = .ok (.map [(.str "a", w)]) := by
  have hnamed : mixed.Named := by
    refine .mk (by simp) .nil ?_
    rw [List.forall_mem_singleton]
    exact .mk (by simp) .nil (List.forall_mem_nil _)
  have hchild : List.Forall₂ (fun c v => Maps {} c.1 v) mixed.children [.int 1] :=
    .cons (.leaf rfl rfl) .nil
  have hmaps : Maps {} mixed _ := .node (by simp) .nil hchild ⟨_, rfl, rfl⟩
  have hvalue : toValue {} mixed =
      .ok (.map [(.str "a", .map [(.str "b", .int 1), (.str "#text", .str "s")])]) :=
    map_eq_ok.mpr ⟨_, (ofElement_eq_ok rfl rfl hnamed).mpr hmaps, rfl⟩
  obtain ⟨⟨w, hw, htexts⟩, hsame⟩ := texts_of_toValue rfl rfl hnamed hvalue
  cases hw
  obtain ⟨_, hroot, _, hown, hs⟩ := htexts [] mixed rfl
  obtain ⟨_, hb, _, hone, hi⟩ := htexts [0] (.mk "b" [] "1".toList []) rfl
  cases hroot
  cases hown
  cases hone
  cases hb
  exact ⟨_, hvalue, hs, rfl, by simp [mixed, Element.untailed, Element.untailed.all], hsame⟩

end Mapping

end Xml

end Polyglot
