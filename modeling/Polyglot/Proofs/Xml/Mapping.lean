import Mathlib.Data.List.Nodup
import Polyglot.Proofs.Outcome
import Polyglot.Proofs.Text.Distinct
import Polyglot.Xml.Mapping

/-!
Folding children into a mapping one by one comes to what they are by tag: each tag where it first
appears, with the value of its only child or with the values of all of them.
-/

namespace Polyglot

namespace Value

variable {entries : Fields}

theorem same_texts (a b : String) : same (.str a) (.str b) = (a == b) := by
  rw [same]

theorem insert_of_not_same {key v : Value} (h : ∀ e ∈ entries, same e.1 key = false) :
    insert entries key v = entries ++ [(key, v)] := by
  induction entries with
  | nil => rfl
  | cons e entries ih =>
    obtain ⟨he, hentries⟩ := List.forall_mem_cons.mp h
    rw [insert, if_neg (by simp [he]), ih hentries, List.cons_append]

theorem insert_append_of_not_same {key v : Value} (h : ∀ e ∈ entries, same e.1 key = false)
    (more : Fields) : insert (entries ++ more) key v = entries ++ insert more key v := by
  induction entries with
  | nil => rfl
  | cons e entries ih =>
    obtain ⟨he, hentries⟩ := List.forall_mem_cons.mp h
    rw [List.cons_append, insert, if_neg (by simp [he]), ih hentries, List.cons_append]

theorem ofEntries_of_pairwise (h : entries.Pairwise fun e e' => same e.1 e'.1 = false) :
    ofEntries entries = entries := by
  have hfold (front more : Fields) (h : (front ++ more).Pairwise fun e e' => same e.1 e'.1 = false) :
      more.foldl (fun m e => insert m e.1 e.2) front = front ++ more := by
    induction more generalizing front with
    | nil => rw [List.foldl_nil, List.append_nil]
    | cons e more ih =>
      have hfront := (List.pairwise_append.mp h).2.2
      rw [List.foldl_cons, insert_of_not_same fun e' he' => hfront e' he' e List.mem_cons_self, ih]
      · rw [List.append_assoc, List.singleton_append]
      · rwa [List.append_assoc, List.singleton_append]
  exact hfold [] entries h

theorem find_append_of_not_text {key : String} (h : ∀ e ∈ entries, e.1.isText key = false)
    (more : Fields) : find? (entries ++ more) key = find? more key := by
  have hnone : entries.find? (fun e => e.1.isText key) = none :=
    List.find?_eq_none.mpr fun e he => by simp [h e he]
  rw [find?, List.find?_append, hnone, Option.none_or, find?]

/-!
Entries under text keys, no two of them the same.
-/

variable {keys : List String} (f : String → Value)

theorem find_map (key : String) : find? (keys.map fun k => (.str k, f k)) key =
    if key ∈ keys then some (f key) else none := by
  induction keys with
  | nil => rfl
  | cons k keys ih =>
    rw [find?] at ih ⊢
    by_cases hk : k = key
    · rw [List.map_cons, List.find?_cons_of_pos (by simp [isText, hk]), hk,
        if_pos List.mem_cons_self]
      rfl
    · rw [List.map_cons, List.find?_cons_of_neg (by simp [isText, Ne.symm hk]), ih]
      simp [Ne.symm hk]

theorem insert_map (h : keys.Nodup) {key : String} (hkey : key ∈ keys) (v : Value) :
    insert (keys.map fun k => (.str k, f k)) (.str key) v =
      keys.map fun k => (.str k, if k = key then v else f k) := by
  induction keys with
  | nil => cases hkey
  | cons k keys ih =>
    obtain ⟨hk, hkeys⟩ := List.nodup_cons.mp h
    rw [List.map_cons, List.map_cons, insert, same_texts]
    by_cases heq : k = key
    · subst heq
      rw [if_pos (beq_self_eq_true k), if_pos rfl]
      congr 1
      refine List.map_congr_left fun k' hk' => ?_
      rw [if_neg]
      rintro rfl
      exact hk hk'
    · rw [if_neg (by simpa using heq), if_neg heq, ih hkeys]
      exact (List.mem_cons.mp hkey).resolve_left (Ne.symm heq)

end Value

namespace Xml.Mapping

def valuesOf (tag : String) (found : List (String × Value)) : List Value :=
  found.filterMap fun c => if c.1 = tag then some c.2 else none

def folded : List Value → Value
  | [v] => v
  | vs => .list vs

def entriesOf (found : List (String × Value)) : Fields :=
  (found.map (·.1)).eraseDups.map fun tag => (.str tag, folded (valuesOf tag found))

theorem valuesOf_concat (tag : String) (found : List (String × Value)) (c : String × Value) :
    valuesOf tag (found ++ [c]) = valuesOf tag found ++ if c.1 = tag then [c.2] else [] := by
  rw [valuesOf, List.filterMap_append, valuesOf]
  split <;> simp [*]

theorem valuesOf_eq_nil {tag : String} {found : List (String × Value)} :
    valuesOf tag found = [] ↔ tag ∉ found.map (·.1) := by
  rw [valuesOf, List.filterMap_eq_nil_iff, List.mem_map]
  constructor
  · rintro h ⟨c, hc, rfl⟩
    simpa using h c hc
  · intro h c hc
    exact if_neg fun heq => h ⟨c, hc, heq⟩

theorem mem_entriesOf {found : List (String × Value)} {e : Value × Value} (h : e ∈ entriesOf found) :
    ∃ c ∈ found, e.1 = .str c.1 := by
  obtain ⟨tag, htag, rfl⟩ := List.mem_map.mp h
  obtain ⟨c, hc, rfl⟩ := List.mem_map.mp (List.mem_eraseDups.mp htag)
  exact ⟨c, hc, rfl⟩

/--
Whether a value is a list; no element has one for its value, so that a list under a tag holds the values
of several children.
-/
def IsList (v : Value) : Prop :=
  ∃ vs, v = .list vs

theorem folded_concat {vs : List Value} (hne : vs ≠ []) (v : Value) :
    folded (vs ++ [v]) = .list (vs ++ [v]) := by
  match vs with
  | w :: vs => cases vs <;> rfl

theorem addChild_entriesOf {front : Fields} {found : List (String × Value)} {tag : String} {v : Value}
    (hfront : ∀ e ∈ front, e.1.isText tag = false ∧ e.1.same (.str tag) = false)
    (hfound : ∀ c ∈ found, ¬ IsList c.2) :
    addChild (front ++ entriesOf found) tag v = front ++ entriesOf (found ++ [(tag, v)]) := by
  have hfind : Value.find? (front ++ entriesOf found) tag =
      if tag ∈ found.map (·.1) then some (folded (valuesOf tag found)) else none := by
    rw [Value.find_append_of_not_text fun e he => (hfront e he).1, entriesOf, Value.find_map]
    simp only [List.mem_eraseDups]
  have hother {t : String} (ht : t ≠ tag) :
      valuesOf t (found ++ [(tag, v)]) = valuesOf t found := by
    rw [valuesOf_concat, if_neg (Ne.symm ht), List.append_nil]
  have hsame : valuesOf tag (found ++ [(tag, v)]) = valuesOf tag found ++ [v] := by
    rw [valuesOf_concat, if_pos rfl]
  rw [addChild, hfind]
  by_cases htag : tag ∈ found.map (·.1)
  · have hne : valuesOf tag found ≠ [] := mt valuesOf_eq_nil.mp (not_not_intro htag)
    have hinsert (w : Value) (hw : w = folded (valuesOf tag found ++ [v])) :
        Value.insert (front ++ entriesOf found) (.str tag) w =
          front ++ entriesOf (found ++ [(tag, v)]) := by
      rw [Value.insert_append_of_not_same fun e he => (hfront e he).2, entriesOf,
        Value.insert_map _ (Text.nodup_eraseDups _) (List.mem_eraseDups.mpr htag), entriesOf,
        List.map_append, List.map_singleton, Text.eraseDups_concat, if_pos htag, List.append_nil]
      congr 1
      refine List.map_congr_left fun t _ => ?_
      by_cases ht : t = tag
      · rw [if_pos ht, ht, hsame, hw]
      · rw [if_neg ht, hother ht]
    rw [if_pos htag]
    cases hvalues : valuesOf tag found with
    | nil => exact absurd hvalues hne
    | cons w ws =>
      rw [hvalues] at hinsert
      cases ws with
      | nil =>
        have hw : ¬ IsList w := by
          have hmem : w ∈ valuesOf tag found := by rw [hvalues]; exact List.mem_cons_self
          obtain ⟨c, hc, heq⟩ := List.mem_filterMap.mp hmem
          split at heq
          · cases heq
            exact hfound c hc
          · cases heq
        cases w with
        | list vs => exact absurd ⟨vs, rfl⟩ hw
        | _ => exact hinsert _ rfl
      | cons w' ws => exact hinsert _ (folded_concat (List.cons_ne_nil _ _) v).symm
  · have hnone : valuesOf tag found = [] := valuesOf_eq_nil.mpr htag
    rw [if_neg htag, entriesOf, entriesOf, List.map_append, List.map_singleton, Text.eraseDups_concat,
      if_neg htag, List.map_append, List.map_singleton, hsame, hnone, List.append_assoc]
    have hmap : (found.map (·.1)).eraseDups.map (fun t =>
          (Value.str t, folded (valuesOf t (found ++ [(tag, v)])))) =
        (found.map (·.1)).eraseDups.map fun t => (Value.str t, folded (valuesOf t found)) := by
      refine List.map_congr_left fun t ht => ?_
      rw [hother]
      rintro rfl
      exact htag (List.mem_eraseDups.mp ht)
    rw [hmap]
    rfl

end Xml.Mapping

end Polyglot

/-!
What trees of elements are mapped to: the text of an element without children and kept attributes, and
for any other a mapping of its attributes, its children by tag and its text, at every level.
-/

namespace Polyglot.Xml

theorem forall₂_congr_of_mem {α β : Type} {R S : α → β → Prop} {as : List α} {bs : List β}
    (h : ∀ a ∈ as, ∀ b, R a b ↔ S a b) : List.Forall₂ R as bs ↔ List.Forall₂ S as bs := by
  induction as generalizing bs with
  | nil => rw [List.forall₂_nil_left_iff, List.forall₂_nil_left_iff]
  | cons a as ih =>
    obtain ⟨ha, has⟩ := List.forall_mem_cons.mp h
    simp only [List.forall₂_cons_left_iff, ha, ih has]

/--
Names are none of the keys that the mapping uses beside them, and no attribute is given twice.
-/
inductive Element.Named : Element → Prop where
  | mk {tag : String} {attrs : List (String × String)} {text : List Char}
      {children : List (Element × List Char)}
      (htag : ∀ c ∈ tag.toList.head?, c ≠ '@' ∧ c ≠ '#') (hattrs : (attrs.map (·.1)).Nodup)
      (hchildren : ∀ c ∈ children, c.1.Named) : (Element.mk tag attrs text children).Named

theorem Element.Named.tag {e : Element} (h : e.Named) :
    ∀ c ∈ e.tag.toList.head?, c ≠ '@' ∧ c ≠ '#' := by
  cases h with
  | mk htag => exact htag

theorem Element.induction {P : Element → Prop}
    (h : ∀ tag attrs text children, (∀ c ∈ children, P c.1) → P (.mk tag attrs text children)) :
    ∀ e, P e
  | .mk tag attrs text children => h tag attrs text children fun c _ => Element.induction h c.1
termination_by e => sizeOf e
decreasing_by
  rename_i hc
  have hlt := List.sizeOf_lt_of_mem hc
  obtain ⟨e, tail⟩ := c
  simp only [Prod.mk.sizeOf_spec] at hlt
  simp only [Element.mk.sizeOf_spec]
  omega

namespace Mapping

variable {o : Options}

def kept (o : Options) (attrs : List (String × String)) : List (String × String) :=
  if o.ignoreAttributes then [] else attrs

def Marks (o : Options) (a : String × String) (entry : Value × Value) : Prop :=
  entry.1 = .str ("@_" ++ a.1) ∧ convert o a.2.toList = .ok entry.2

/--
What an element is mapped to: without children and kept attributes its converted text, or the empty
string; else its marked attributes, its children by tag, and its text if it is not blank.
-/
inductive Maps (o : Options) : Element → Value → Prop where
  | leaf {tag : String} {attrs : List (String × String)} {text : List Char} {v : Value}
      (hattrs : kept o attrs = [])
      (hv : if Text.allBlank text then v = .str "" else convert o (Text.trim text) = .ok v) :
      Maps o (.mk tag attrs text []) v
  | node {tag : String} {attrs : List (String × String)} {text : List Char}
      {children : List (Element × List Char)} {marked own : Fields} {vs : List Value}
      (hne : ¬ (children = [] ∧ kept o attrs = []))
      (hattrs : List.Forall₂ (Marks o) (kept o attrs) marked)
      (hchildren : List.Forall₂ (fun c v => Maps o c.1 v) children vs)
      (hown : if Text.allBlank text then own = [] else
        ∃ v, convert o (Text.trim text) = .ok v ∧ own = [(.str "#text", v)]) :
      Maps o (.mk tag attrs text children)
        (.map (marked ++ entriesOf ((children.map (·.1.tag)).zip vs) ++ own))

theorem simple_of_convert {text : List Char} {v : Value} (h : convert o text = .ok v) :
    (∀ vs, v ≠ .list vs) ∧ ∀ entries, v ≠ .map entries := by
  have hscalar (hread : Scalar.read? text = some v) :
      (∀ vs, v ≠ .list vs) ∧ ∀ entries, v ≠ .map entries := by
    rw [Scalar.read?] at hread
    dsimp only at hread
    split at hread
    · split at hread
      · cases hread
        exact ⟨nofun, nofun⟩
      · split at hread <;> cases hread
        exact ⟨nofun, nofun⟩
    · split at hread
      · cases hread
        exact ⟨nofun, nofun⟩
      · split at hread <;> cases hread <;> exact ⟨nofun, nofun⟩
  rw [convert] at h
  split at h
  · split at h
    · next hread =>
      cases h
      exact hscalar hread
    · cases h
  · cases h
    exact ⟨nofun, nofun⟩

theorem not_isList_convert {text : List Char} {v : Value} (h : convert o text = .ok v) :
    ¬ IsList v := by
  rintro ⟨vs, rfl⟩
  exact (simple_of_convert h).1 vs rfl

theorem not_isList_ofElement {e : Element} {v : Value} (h : ofElement o e = .ok v) : ¬ IsList v := by
  obtain ⟨tag, attrs, text, children⟩ := e
  rw [ofElement] at h
  split at h
  · cases h
  · split at h
    · split at h
      · cases h
        rintro ⟨vs, ⟨⟩⟩
      · exact not_isList_convert h
    · split at h
      · cases h
      · next entries _ =>
        cases hown : addText o entries text with
        | error e => rw [hown] at h; cases h
        | ok entries =>
          rw [hown] at h
          cases h
          rintro ⟨vs, ⟨⟩⟩

theorem attributes_eq_ok (hmark : o.attributeMark = .str "@_") {attrs : List (String × String)}
    {entries : Fields} : attributes o attrs = .ok entries ↔ List.Forall₂ (Marks o) attrs entries := by
  induction attrs generalizing entries with
  | nil =>
    rw [attributes, List.forall₂_nil_left_iff]
    exact ⟨fun h => (Except.ok.inj h).symm, fun h => by rw [h]⟩
  | cons a attrs ih =>
    obtain ⟨name, text⟩ := a
    rw [attributes, hmark, List.forall₂_cons_left_iff]
    constructor
    · intro h
      dsimp only at h
      split at h
      · next v more hv hmore =>
        cases h
        exact ⟨_, more, ⟨rfl, hv⟩, ih.mp hmore, rfl⟩
      · cases h
      · cases h
    · rintro ⟨⟨key, v⟩, more, ⟨hkey, hv⟩, hmore, rfl⟩
      dsimp only at hkey hv ⊢
      rw [hv, ih.mpr hmore, hkey]

theorem ofChildren_eq_ok {front : Fields} {children : List (Element × List Char)}
    (hfront : ∀ e ∈ front, ∀ c ∈ children,
      e.1.isText c.1.tag = false ∧ e.1.same (.str c.1.tag) = false)
    {found : List (String × Value)} (hfound : ∀ c ∈ found, ¬ IsList c.2) {entries : Fields} :
    ofElement.ofChildren o (front ++ entriesOf found) children = .ok entries ↔
      ∃ vs, List.Forall₂ (fun c v => ofElement o c.1 = .ok v) children vs ∧
        entries = front ++ entriesOf (found ++ (children.map (·.1.tag)).zip vs) := by
  induction children generalizing found with
  | nil =>
    rw [ofElement.ofChildren]
    simp only [List.forall₂_nil_left_iff, exists_eq_left, List.map_nil, List.zip_nil_left,
      List.append_nil, Except.ok.injEq, eq_comm]
  | cons c children ih =>
    obtain ⟨e, tail⟩ := c
    rw [ofElement.ofChildren]
    cases hv : ofElement o e with
    | error err =>
      refine ⟨nofun, ?_⟩
      rintro ⟨vs, hvs, -⟩
      obtain ⟨v, more, hfirst, -⟩ := List.forall₂_cons_left_iff.mp hvs
      rw [hv] at hfirst
      cases hfirst
    | ok v =>
      have hmore : ∀ c ∈ found ++ [(e.tag, v)], ¬ IsList c.2 := by
        intro c hc
        rcases List.mem_append.mp hc with hc | hc
        · exact hfound c hc
        · rw [List.mem_singleton.mp hc]
          exact not_isList_ofElement hv
      have hadd : addChild (front ++ entriesOf found) e.tag v =
          front ++ entriesOf (found ++ [(e.tag, v)]) :=
        addChild_entriesOf (fun e' he' => hfront e' he' _ List.mem_cons_self) hfound
      have hzip (vs : List Value) : found ++ [(e.tag, v)] ++ (children.map (·.1.tag)).zip vs =
          found ++ (((e, tail) :: children).map (·.1.tag)).zip (v :: vs) := by simp
      dsimp only
      rw [hadd, ih (fun e' he' c hc => hfront e' he' c (List.mem_cons_of_mem _ hc)) hmore]
      constructor
      · rintro ⟨vs, hvs, rfl⟩
        exact ⟨v :: vs, .cons hv hvs, by rw [hzip]⟩
      · rintro ⟨vs, hvs, rfl⟩
        obtain ⟨w, more, hfirst, hrest, rfl⟩ := List.forall₂_cons_left_iff.mp hvs
        obtain rfl := Except.ok.inj (hv.symm.trans hfirst)
        exact ⟨more, hrest, by rw [hzip]⟩

section Keys

variable {attrs : List (String × String)} {marked : Fields}

theorem exists_of_marks (h : List.Forall₂ (Marks o) attrs marked) {e : Value × Value}
    (he : e ∈ marked) : ∃ a ∈ attrs, e.1 = .str ("@_" ++ a.1) := by
  induction h with
  | nil => cases he
  | cons ha _ ih =>
    rcases List.mem_cons.mp he with rfl | he
    · exact ⟨_, List.mem_cons_self, ha.1⟩
    · obtain ⟨a, hmem, heq⟩ := ih he
      exact ⟨a, List.mem_cons_of_mem _ hmem, heq⟩

theorem ofEntries_of_marks (h : List.Forall₂ (Marks o) attrs marked)
    (hnames : (attrs.map (·.1)).Nodup) : Value.ofEntries marked = marked := by
  refine Value.ofEntries_of_pairwise ?_
  induction h with
  | nil => exact .nil
  | @cons a entry attrs marked ha hmarked ih =>
    obtain ⟨hnew, hnames⟩ := List.nodup_cons.mp hnames
    refine .cons (fun e he => ?_) (ih hnames)
    obtain ⟨a', ha', heq⟩ := exists_of_marks hmarked he
    rw [ha.1, heq, Value.same_texts, beq_eq_false_iff_ne]
    intro hsame
    have hname : a.1 = a'.1 := by simpa [String.ext_iff] using hsame
    exact hnew (List.mem_map.mpr ⟨a', ha', hname.symm⟩)

theorem marked_ne {name : String} (h : ∀ c ∈ name.toList.head?, c ≠ '@')
    (hmarked : List.Forall₂ (Marks o) attrs marked) {e : Value × Value} (he : e ∈ marked) :
    e.1.isText name = false ∧ e.1.same (.str name) = false := by
  obtain ⟨a, -, heq⟩ := exists_of_marks hmarked he
  have hne : "@_" ++ a.1 ≠ name := by
    rintro rfl
    exact h '@' (by simp) rfl
  rw [heq, Value.same_texts]
  exact ⟨by simpa [Value.isText] using Ne.symm hne, by simpa using hne⟩

end Keys

theorem addText_eq_ok (hkey : o.textKey = .str "#text") {entries entries' : Fields}
    (hnew : ∀ e ∈ entries, e.1.same (.str "#text") = false) (text : List Char) :
    addText o entries text = .ok entries' ↔ ∃ own, entries' = entries ++ own ∧
      if Text.allBlank text then own = [] else
        ∃ v, convert o (Text.trim text) = .ok v ∧ own = [(.str "#text", v)] := by
  rw [addText]
  split
  · simp [eq_comm]
  · have hhash : (Value.str "#text").isHashable = true := by simp [Value.isHashable]
    rw [hkey, hhash]
    cases convert o (Text.trim text) with
    | error e => simp
    | ok v =>
      simp [Value.insert_of_not_same hnew, eq_comm]

theorem keptAttributes_eq_ok (hmark : o.attributeMark = .str "@_") {attrs : List (String × String)}
    {marked : Fields} : (if o.ignoreAttributes then .ok [] else attributes o attrs) = .ok marked ↔
      List.Forall₂ (Marks o) (kept o attrs) marked := by
  rw [kept]
  split
  · rw [List.forall₂_nil_left_iff]
    exact ⟨fun h => (Except.ok.inj h).symm, fun h => by rw [h]⟩
  · exact attributes_eq_ok hmark

theorem ofElement_leaf {tag : String} {attrs : List (String × String)} {text : List Char} {v : Value}
    (hkept : (if o.ignoreAttributes then .ok [] else attributes o attrs) = .ok []) :
    ofElement o (.mk tag attrs text []) = .ok v ↔
      if Text.allBlank text then v = .str "" else convert o (Text.trim text) = .ok v := by
  rw [ofElement, hkept]
  simp only [List.isEmpty_nil, Bool.and_self, if_true]
  split
  · exact ⟨fun h => (Except.ok.inj h).symm, fun h => by rw [h]⟩
  · exact .rfl

theorem ofElement_node (hkey : o.textKey = .str "#text") {tag : String}
    {attrs : List (String × String)} {text : List Char} {children : List (Element × List Char)}
    {marked : Fields} (hnames : (attrs.map (·.1)).Nodup)
    (htags : ∀ c ∈ children, ∀ d ∈ c.1.tag.toList.head?, d ≠ '@' ∧ d ≠ '#')
    (hkept : (if o.ignoreAttributes then .ok [] else attributes o attrs) = .ok marked)
    (hmarked : List.Forall₂ (Marks o) (kept o attrs) marked)
    (hne : ¬ (children = [] ∧ kept o attrs = [])) {v : Value} :
    ofElement o (.mk tag attrs text children) = .ok v ↔ ∃ vs own,
      List.Forall₂ (fun c v => ofElement o c.1 = .ok v) children vs ∧
      (if Text.allBlank text then own = [] else
        ∃ v, convert o (Text.trim text) = .ok v ∧ own = [(.str "#text", v)]) ∧
      v = .map (marked ++ entriesOf ((children.map (·.1.tag)).zip vs) ++ own) := by
  have hnode : ¬ (children.isEmpty && marked.isEmpty) = true := by
    intro hempty
    simp only [Bool.and_eq_true, List.isEmpty_iff] at hempty
    obtain ⟨hnone, rfl⟩ := hempty
    exact hne ⟨hnone, List.forall₂_nil_right_iff.mp hmarked⟩
  have hkeptNames : ((kept o attrs).map (·.1)).Nodup := by
    rw [kept]
    split
    · exact .nil
    · exact hnames
  have hfold {entries : Fields} : ofElement.ofChildren o marked children = .ok entries ↔
      ∃ vs, List.Forall₂ (fun c v => ofElement o c.1 = .ok v) children vs ∧
        entries = marked ++ entriesOf ((children.map (·.1.tag)).zip vs) := by
    have hempty : marked ++ entriesOf [] = marked := List.append_nil marked
    have hfold := @ofChildren_eq_ok o marked children
      (fun e he c hc => marked_ne (fun d hd => (htags c hc d hd).1) hmarked he) [] (by simp) entries
    rwa [hempty] at hfold
  have hnew (vs : List Value) : ∀ e ∈ marked ++ entriesOf ((children.map (·.1.tag)).zip vs),
      e.1.same (.str "#text") = false := by
    intro e he
    rcases List.mem_append.mp he with he | he
    · exact (marked_ne (by simp) hmarked he).2
    · obtain ⟨c, hc, heq⟩ := mem_entriesOf he
      obtain ⟨child, hchild, htag⟩ := List.mem_map.mp (List.of_mem_zip hc).1
      rw [heq, Value.same_texts, beq_eq_false_iff_ne, ← htag]
      intro hkey
      exact (htags child hchild '#' (by rw [hkey]; rfl)).2 rfl
  rw [ofElement, hkept]
  dsimp only
  rw [if_neg hnode, ofEntries_of_marks hmarked hkeptNames]
  constructor
  · intro h
    cases hentries : ofElement.ofChildren o marked children with
    | error e => rw [hentries] at h; cases h
    | ok entries =>
      rw [hentries] at h
      obtain ⟨vs, hvs, rfl⟩ := hfold.mp hentries
      obtain ⟨entries', htext, rfl⟩ := map_eq_ok.mp h
      obtain ⟨own, rfl, hown⟩ := (addText_eq_ok hkey (hnew vs) text).mp htext
      exact ⟨vs, own, hvs, hown, rfl⟩
  · rintro ⟨vs, own, hvs, hown, rfl⟩
    rw [hfold.mpr ⟨vs, hvs, rfl⟩]
    exact map_eq_ok.mpr ⟨_, (addText_eq_ok hkey (hnew vs) text).mpr ⟨own, rfl, hown⟩, rfl⟩

/--
The value of an element is what the element is mapped to.
-/
theorem ofElement_eq_ok (hmark : o.attributeMark = .str "@_") (hkey : o.textKey = .str "#text")
    {e : Element} (he : e.Named) {v : Value} : ofElement o e = .ok v ↔ Maps o e v := by
  induction e using Element.induction generalizing v with
  | h tag attrs text children ih =>
    obtain ⟨htag, hnames, hchildren⟩ := he
    have hvalues {vs : List Value} : List.Forall₂ (fun c v => ofElement o c.1 = .ok v) children vs ↔
        List.Forall₂ (fun c v => Maps o c.1 v) children vs :=
      forall₂_congr_of_mem fun c hc v => ih c hc (hchildren c hc)
    have hmarks (marked : Fields) (hmarked : List.Forall₂ (Marks o) (kept o attrs) marked) :
        ofElement o (.mk tag attrs text children) = .ok v ↔ Maps o (.mk tag attrs text children) v := by
      have hkept := (keptAttributes_eq_ok hmark).mpr hmarked
      by_cases hleaf : children = [] ∧ kept o attrs = []
      · obtain ⟨rfl, hattrs⟩ := hleaf
        rw [hattrs, List.forall₂_nil_left_iff] at hmarked
        rw [hmarked] at hkept
        rw [ofElement_leaf hkept]
        refine ⟨fun h => .leaf hattrs h, fun h => ?_⟩
        cases h with
        | leaf _ hv => exact hv
        | node hne => exact absurd ⟨rfl, hattrs⟩ hne
      · rw [ofElement_node hkey hnames (fun c hc => (hchildren c hc).tag) hkept hmarked hleaf]
        constructor
        · rintro ⟨vs, own, hvs, hown, rfl⟩
          exact .node hleaf hmarked (hvalues.mp hvs) hown
        · intro h
          cases h with
          | leaf hattrs => exact absurd ⟨rfl, hattrs⟩ hleaf
          | @node _ _ _ _ marked' own vs _ hattrs hvs hown =>
            obtain rfl : marked' = marked := by
              have := (keptAttributes_eq_ok hmark).mpr hattrs
              exact Except.ok.inj (this.symm.trans hkept)
            exact ⟨vs, own, hvalues.mpr hvs, hown, rfl⟩
    cases hkept : (if o.ignoreAttributes then .ok [] else attributes o attrs) with
    | ok marked => exact hmarks marked ((keptAttributes_eq_ok hmark).mp hkept)
    | error err =>
      have hnone (marked : Fields) : ¬ List.Forall₂ (Marks o) (kept o attrs) marked := by
        rw [← keptAttributes_eq_ok hmark, hkept]
        nofun
      constructor
      · intro h
        rw [ofElement, hkept] at h
        cases h
      · intro h
        cases h with
        | leaf hattrs => exact absurd (by rw [hattrs]; exact .nil) (hnone [])
        | node _ hattrs => exact absurd hattrs (hnone _)

def listed : Element :=
  .mk "a" [("b", "1"), ("c", "x")] " t ".toList
    [(.mk "d" [] "2".toList [], " u".toList), (.mk "e" [] [] [], []), (.mk "d" [] " ".toList [], [])]

theorem listed_maps : listed.Named ∧ ofElement {} listed = .ok (.map [(.str "@_b", .int 1),
      (.str "@_c", .str "x"), (.str "d", .list [.int 2, .str ""]), (.str "e", .str ""),
      (.str "#text", .str "t")]) ∧
    Maps {} listed (.map [(.str "@_b", .int 1), (.str "@_c", .str "x"),
      (.str "d", .list [.int 2, .str ""]), (.str "e", .str ""), (.str "#text", .str "t")]) := by
  have hleaf (tag : String) (htag : ∀ c ∈ tag.toList.head?, c ≠ '@' ∧ c ≠ '#') (text : List Char) :
      (Element.mk tag [] text []).Named := .mk htag .nil (by simp)
  have hnamed : listed.Named := by
    refine .mk (by simp) (by decide) ?_
    simp only [List.forall_mem_cons]
    exact ⟨hleaf _ (by simp) _, hleaf _ (by simp) _, hleaf _ (by simp) _, List.forall_mem_nil _⟩
  have hmarked : List.Forall₂ (Marks {}) [("b", "1"), ("c", "x")]
      [(.str "@_b", .int 1), (.str "@_c", .str "x")] :=
    .cons ⟨rfl, rfl⟩ (.cons ⟨rfl, rfl⟩ .nil)
  have hleaves : List.Forall₂ (fun c v => Maps {} c.1 v) listed.children
      [.int 2, .str "", .str ""] :=
    .cons (.leaf rfl rfl) (.cons (.leaf rfl rfl) (.cons (.leaf rfl rfl) .nil))
  have hmaps : Maps {} listed _ := .node (by simp) hmarked hleaves ⟨_, rfl, rfl⟩
  exact ⟨hnamed, (ofElement_eq_ok rfl rfl hnamed).mpr hmaps, hmaps⟩

end Mapping

end Polyglot.Xml
