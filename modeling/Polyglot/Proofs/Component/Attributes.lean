import Mathlib.Data.List.TakeWhile
import Polyglot.Component.Reader
import Polyglot.Proofs.Text.Blanks
import Polyglot.Proofs.Text.Search

/-!
Attributes that are written in an opening tag are read back in their order: with blanks between them, with
blanks around the equals sign or without, and with their values in quotes of either kind.
-/

namespace Polyglot.Component

/--
What is written behind the name of an attribute: nothing, or an equals sign between blanks and a value in
quotes.
-/
inductive AttrSpelling where
  | alone
  | quoted (before after : List Char) (mark : Char) (s : String)

namespace AttrSpelling

def value : AttrSpelling → AttrValue
  | alone => .present
  | quoted _ _ _ s => .text s

def text : AttrSpelling → List Char
  | alone => []
  | quoted before after mark s => before ++ '=' :: (after ++ mark :: (s.toList ++ [mark]))

/--
The quotes are double or single ones, and do not stand in the value; the other kind may.
-/
inductive Legal : AttrSpelling → Prop where
  | alone : Legal .alone
  | quoted {before after : List Char} {mark : Char} {s : String}
      (hbefore : ∀ c ∈ before, Text.isBlank c) (hafter : ∀ c ∈ after, Text.isBlank c)
      (hmark : mark = '"' ∨ mark = '\'') (hvalue : mark ∉ s.toList) : Legal (.quoted before after mark s)

end AttrSpelling

/--
An attribute in any of its spellings, with the blanks in front of it.
-/
structure SpelledAttr where
  blanks : List Char
  name : String
  spelling : AttrSpelling

namespace SpelledAttr

def text (a : SpelledAttr) : List Char :=
  a.blanks ++ (a.name.toList ++ a.spelling.text)

/--
The name is not empty and has no blank, equals sign, quote or sign of a tag.
-/
structure Legal (a : SpelledAttr) : Prop where
  blanks : ∀ c ∈ a.blanks, Text.isBlank c
  named : a.name ≠ ""
  name : ∀ c ∈ a.name.toList, isAttrNameChar c
  spelling : a.spelling.Legal

theorem Legal.exists_cons {a : SpelledAttr} (h : a.Legal) :
    ∃ first more, a.name.toList = first :: more ∧ isAttrNameChar first := by
  obtain ⟨first, more, hname⟩ := List.exists_cons_of_ne_nil
    (fun hnil => h.named (String.toList_eq_nil_iff.mp hnil) : a.name.toList ≠ [])
  exact ⟨first, more, hname, h.name first (by rw [hname]; exact List.mem_cons_self)⟩

end SpelledAttr

theorem isAttrNameChar_of_isBlank {c : Char} (h : Text.isBlank c) : isAttrNameChar c = false := by
  simp [isAttrNameChar, h]

theorem Attributes.set_of_not_mem {as : Attributes} {name : String} (v : AttrValue)
    (h : name ∉ as.map (·.1)) : as.set name v = as ++ [(name, v)] := by
  induction as with
  | nil => rfl
  | cons a as ih =>
    obtain ⟨n, w⟩ := a
    rw [List.map_cons, List.mem_cons, not_or] at h
    rw [Attributes.set, if_neg fun heq => h.1 heq.symm, ih h.2, List.cons_append]

section Reading

variable {fuel : Nat} {as : Attributes} {cs blanks : List Char}

theorem go_blanks (hblanks : ∀ c ∈ blanks, Text.isBlank c) (fuel : Nat) (as : Attributes)
    (cs : List Char) :
    readAttributes.go (fuel + blanks.length) as (blanks ++ cs) = readAttributes.go fuel as cs := by
  induction blanks with
  | nil => rfl
  | cons c blanks ih =>
    obtain ⟨hc, hblanks⟩ := List.forall_mem_cons.mp hblanks
    rw [List.cons_append, List.length_cons, ← Nat.add_assoc, readAttributes.go,
      isAttrNameChar_of_isBlank hc, if_neg Bool.false_ne_true, ih hblanks]

def Stops (cs : List Char) : Prop :=
  ∀ c ∈ (Text.trimLeft cs).head?, c ≠ '='

theorem takeAttrValue_of_stops (h : Stops cs) : takeAttrValue? cs = none := by
  rw [takeAttrValue?.eq_def]
  split
  · next rest heq =>
    rw [Stops, heq] at h
    exact absurd rfl (h '=' rfl)
  · rfl

theorem takeAttrValue_quoted {before after : List Char} {mark : Char} {s : String}
    (h : (AttrSpelling.quoted before after mark s).Legal) (cs : List Char) :
    takeAttrValue? ((AttrSpelling.quoted before after mark s).text ++ cs) = some (s.toList, cs) := by
  obtain - | ⟨hbefore, hafter, hmark, hvalue⟩ := h
  have htext : (AttrSpelling.quoted before after mark s).text ++ cs =
      before ++ '=' :: (after ++ mark :: (s.toList ++ mark :: cs)) := by simp [AttrSpelling.text]
  have hne : ∀ c ∈ s.toList, (c != mark) = true :=
    fun c hc => bne_iff_ne.mpr fun heq => hvalue (heq ▸ hc)
  have hstop : ∀ c ∈ (mark :: cs).head?, (c != mark) = false := by simp
  obtain ⟨htake, hdrop⟩ := Text.takeWhile_stop hne hstop
  have hclosed : takeAttrValue?.closed mark (s.toList ++ mark :: cs) = some (s.toList, cs) := by
    rw [takeAttrValue?.closed, htake, hdrop]
  rw [htext, takeAttrValue?, Text.trimLeft_blanks_cons hbefore (by decide)]
  rcases hmark with rfl | rfl
  · simp only [Text.trimLeft_blanks_cons hafter (by decide : Text.isBlank '"' = false), hclosed]
  · simp only [Text.trimLeft_blanks_cons hafter (by decide : Text.isBlank '\'' = false), hclosed]

theorem go_name {name : List Char} (hne : name ≠ []) (hname : ∀ c ∈ name, isAttrNameChar c)
    (hhead : ∀ c ∈ cs.head?, isAttrNameChar c = false) :
    readAttributes.go (fuel + 1) as (name ++ cs) =
      (takeAttrValue? cs).elim (readAttributes.go fuel (as.set (String.ofList name) .present) cs)
        fun p => readAttributes.go fuel (as.set (String.ofList name) (.text (String.ofList p.1))) p.2 := by
  obtain ⟨first, more, rfl⟩ := List.exists_cons_of_ne_nil hne
  obtain ⟨hfirst, hmore⟩ := List.forall_mem_cons.mp hname
  obtain ⟨htake, hdrop⟩ := Text.takeWhile_stop hmore hhead
  rw [List.cons_append, readAttributes.go, if_pos hfirst, htake, hdrop]
  dsimp only
  cases takeAttrValue? cs <;> rfl

theorem go_spelling {name : String} {spelling : AttrSpelling} (hne : name.toList ≠ [])
    (hname : ∀ c ∈ name.toList, isAttrNameChar c) (h : spelling.Legal)
    (hhead : ∀ c ∈ cs.head?, isAttrNameChar c = false) (hstops : Stops cs) :
    readAttributes.go (fuel + 1) as (name.toList ++ (spelling.text ++ cs)) =
      readAttributes.go fuel (as.set name spelling.value) cs := by
  cases spelling with
  | alone =>
    rw [AttrSpelling.text, List.nil_append, go_name hne hname hhead, takeAttrValue_of_stops hstops,
      String.ofList_toList]
    rfl
  | quoted before after mark s =>
    have hmark : ∀ c ∈ ((AttrSpelling.quoted before after mark s).text ++ cs).head?,
        isAttrNameChar c = false := by
      obtain - | ⟨hbefore, -, -, -⟩ := h
      cases before with
      | nil => simp [AttrSpelling.text, isAttrNameChar]
      | cons b before =>
        simpa [AttrSpelling.text] using isAttrNameChar_of_isBlank (hbefore b List.mem_cons_self)
    rw [go_name hne hname hmark, takeAttrValue_quoted h]
    simp only [Option.elim_some, String.ofList_toList, AttrSpelling.value]

theorem go_attr {a : SpelledAttr} (h : a.Legal) (hnew : a.name ∉ as.map (·.1))
    (hhead : ∀ c ∈ cs.head?, isAttrNameChar c = false) (hstops : Stops cs)
    (hfuel : (a.text ++ cs).length < fuel) :
    ∃ fuel', cs.length < fuel' ∧ readAttributes.go fuel as (a.text ++ cs) =
      readAttributes.go fuel' (as ++ [(a.name, a.spelling.value)]) cs := by
  obtain ⟨first, more, hname, -⟩ := h.exists_cons
  obtain ⟨blanks, name, spelling⟩ := a
  have hblanks : ∀ c ∈ blanks, Text.isBlank c := h.blanks
  have hne : name.toList ≠ [] := by rw [hname]; exact List.cons_ne_nil _ _
  simp only [SpelledAttr.text, List.append_assoc] at hfuel ⊢
  have hlength : (name.toList ++ (spelling.text ++ cs)).length + blanks.length < fuel := by
    simpa [Nat.add_comm] using hfuel
  obtain ⟨extra, rfl⟩ := Nat.exists_eq_add_of_lt hlength
  refine ⟨(name.toList ++ (spelling.text ++ cs)).length + extra, ?_, ?_⟩
  · have hpos := List.length_pos_iff.mpr hne
    simp only [List.length_append]
    omega
  · have hfuel : (name.toList ++ (spelling.text ++ cs)).length + blanks.length + extra + 1 =
        (name.toList ++ (spelling.text ++ cs)).length + extra + 1 + blanks.length := by omega
    rw [hfuel, go_blanks hblanks, go_spelling hne h.name h.spelling hhead hstops,
      Attributes.set_of_not_mem _ hnew]

end Reading

section Lists

variable {as : List SpelledAttr} {blanks : List Char}

theorem head_spelled (h : ∀ a ∈ as, a.Legal) (hapart : ∀ a ∈ as, a.blanks ≠ [])
    (hblanks : ∀ c ∈ blanks, Text.isBlank c) :
    ∀ c ∈ (as.flatMap SpelledAttr.text ++ blanks).head?, Text.isBlank c := by
  cases as with
  | nil =>
    intro c hc
    exact hblanks c (List.mem_of_mem_head? hc)
  | cons a as =>
    have ha := h a List.mem_cons_self
    obtain ⟨first, more, hfirst⟩ := List.exists_cons_of_ne_nil (hapart a List.mem_cons_self)
    intro c hc
    simp only [List.flatMap_cons, SpelledAttr.text, hfirst, List.cons_append, List.head?_cons,
      Option.mem_some_iff] at hc
    exact hc ▸ ha.blanks first (by rw [hfirst]; exact List.mem_cons_self)

theorem stops_spelled (h : ∀ a ∈ as, a.Legal) (hblanks : ∀ c ∈ blanks, Text.isBlank c) :
    Stops (as.flatMap SpelledAttr.text ++ blanks) := by
  cases as with
  | nil => simp [Stops, Text.trimLeft, List.dropWhile_eq_nil_iff.mpr hblanks]
  | cons a as =>
    have ha := h a List.mem_cons_self
    obtain ⟨first, more, hname, hfirst⟩ := ha.exists_cons
    have hplain : Text.isBlank first = false := by
      by_contra hblank
      rw [isAttrNameChar_of_isBlank (by simpa using hblank)] at hfirst
      cases hfirst
    rw [Stops, List.flatMap_cons, SpelledAttr.text, hname, List.append_assoc, List.append_assoc,
      List.append_assoc, List.cons_append, Text.trimLeft_blanks_cons ha.blanks hplain]
    rintro c ⟨⟩ rfl
    simp [isAttrNameChar] at hfirst

theorem go_attrs (h : ∀ a ∈ as, a.Legal) (hapart : ∀ a ∈ as.tail, a.blanks ≠ [])
    (hnames : (as.map (·.name)).Nodup) (hblanks : ∀ c ∈ blanks, Text.isBlank c) {fuel : Nat}
    {read : Attributes} (hfuel : (as.flatMap SpelledAttr.text ++ blanks).length < fuel)
    (hnew : ∀ a ∈ as, a.name ∉ read.map (·.1)) :
    readAttributes.go fuel read (as.flatMap SpelledAttr.text ++ blanks) =
      read ++ as.map fun a => (a.name, a.spelling.value) := by
  induction as generalizing fuel read with
  | nil =>
    obtain ⟨extra, rfl⟩ := Nat.exists_eq_add_of_lt hfuel
    have hskip := go_blanks hblanks (extra + 1) read []
    rw [List.append_nil, Nat.add_comm, ← Nat.add_assoc] at hskip
    rw [List.flatMap_nil, List.nil_append, hskip, List.map_nil, List.append_nil]
    rfl
  | cons a as ih =>
    obtain ⟨ha, has⟩ := List.forall_mem_cons.mp h
    obtain ⟨hname, hnames⟩ := List.nodup_cons.mp hnames
    obtain ⟨hread, hnew⟩ := List.forall_mem_cons.mp hnew
    rw [List.flatMap_cons, List.append_assoc] at hfuel ⊢
    obtain ⟨fuel, hfuel, hgo⟩ := go_attr ha hread
      (fun c hc => isAttrNameChar_of_isBlank (head_spelled has hapart hblanks c hc))
      (stops_spelled has hblanks) hfuel
    rw [hgo, ih has (fun b hb => hapart b (List.mem_of_mem_tail hb)) hnames hfuel ?_]
    · simp
    · intro b hb
      rw [List.map_append, List.mem_append, not_or]
      refine ⟨hnew b hb, fun heq => hname ?_⟩
      rw [← List.mem_singleton.mp heq]
      exact List.mem_map_of_mem hb

/--
Attributes with different names are read back from every text that spells them, with blanks between them.
-/
theorem readAttributes_spelled (h : ∀ a ∈ as, a.Legal) (hapart : ∀ a ∈ as.tail, a.blanks ≠ [])
    (hnames : (as.map (·.name)).Nodup) (hblanks : ∀ c ∈ blanks, Text.isBlank c) :
    readAttributes (as.flatMap SpelledAttr.text ++ blanks) =
      as.map fun a => (a.name, a.spelling.value) :=
  go_attrs h hapart hnames hblanks (Nat.lt_succ_self _) (by simp)

def tangled : List SpelledAttr := [
  ⟨[], "lang", .quoted [] [' '] '\'' "a=\"b\" scoped/>"⟩,
  ⟨[' ', '\n'], "scoped", .alone⟩,
  ⟨['\t'], "title", .quoted ['\n'] [] '"' "x='y' lang = <"⟩]

theorem tangled_read : (∀ a ∈ tangled, a.Legal) ∧ (∀ a ∈ tangled.tail, a.blanks ≠ []) ∧
    (tangled.map (·.name)).Nodup ∧
    tangled.flatMap SpelledAttr.text ++ [' '] =
      "lang= 'a=\"b\" scoped/>' \nscoped\ttitle\n=\"x='y' lang = <\" ".toList ∧
    readAttributes "lang= 'a=\"b\" scoped/>' \nscoped\ttitle\n=\"x='y' lang = <\" ".toList =
      [("lang", .text "a=\"b\" scoped/>"), ("scoped", .present), ("title", .text "x='y' lang = <")] := by
  have hlegal : ∀ a ∈ tangled, a.Legal := by
    simp only [tangled, List.forall_mem_cons, List.not_mem_nil, false_implies, implies_true, and_true]
    have hblank {cs : List Char} (h : cs.all Text.isBlank) : ∀ c ∈ cs, Text.isBlank c :=
      List.all_eq_true.mp h
    have hchar {name : String} (h : name.toList.all isAttrNameChar) :
        ∀ c ∈ name.toList, isAttrNameChar c := List.all_eq_true.mp h
    exact ⟨⟨hblank rfl, by decide, hchar rfl, .quoted (hblank rfl) (hblank rfl) (.inr rfl) (by decide)⟩,
      ⟨hblank rfl, by decide, hchar rfl, .alone⟩,
      ⟨hblank rfl, by decide, hchar rfl, .quoted (hblank rfl) (hblank rfl) (.inl rfl) (by decide)⟩⟩
  have hapart : ∀ a ∈ tangled.tail, a.blanks ≠ [] := by simp [tangled]
  have hnames : (tangled.map (·.name)).Nodup := by decide
  have htext : tangled.flatMap SpelledAttr.text ++ [' '] =
      "lang= 'a=\"b\" scoped/>' \nscoped\ttitle\n=\"x='y' lang = <\" ".toList := rfl
  refine ⟨hlegal, hapart, hnames, htext, ?_⟩
  rw [← htext]
  exact readAttributes_spelled hlegal hapart hnames (List.all_eq_true.mp rfl)

end Lists

/-!
Attributes in one spelling: with double quotes and no blanks around the equals sign.
-/

def writeAttr (name : String) : AttrValue → List Char
  | .present => name.toList
  | .text s => name.toList ++ '=' :: '"' :: (s.toList ++ ['"'])

/--
An attribute that is to be written, with the blanks in front of it.
-/
structure SpacedAttr where
  blanks : List Char
  name : String
  value : AttrValue

namespace SpacedAttr

def text (a : SpacedAttr) : List Char :=
  a.blanks ++ writeAttr a.name a.value

/--
There are blanks in front, the name is not empty and has no sign of a tag, and no double quote stands in
the value.
-/
structure Legal (a : SpacedAttr) : Prop where
  apart : a.blanks ≠ []
  blanks : ∀ c ∈ a.blanks, Text.isBlank c
  named : a.name ≠ ""
  name : ∀ c ∈ a.name.toList, isAttrNameChar c
  value : ∀ s, a.value = .text s → '"' ∉ s.toList

end SpacedAttr

def attributesOf (as : List SpacedAttr) : Attributes :=
  as.map fun a => (a.name, a.value)

section Spaced

variable {as : List SpacedAttr} {blanks : List Char}

def SpacedAttr.spelled (a : SpacedAttr) : SpelledAttr :=
  ⟨a.blanks, a.name, match a.value with
    | .present => .alone
    | .text s => .quoted [] [] '"' s⟩

theorem SpacedAttr.spelled_text (a : SpacedAttr) : a.spelled.text = a.text := by
  obtain ⟨blanks, name, value⟩ := a
  cases value <;> simp [spelled, SpelledAttr.text, text, AttrSpelling.text, writeAttr]

theorem SpacedAttr.spelled_value (a : SpacedAttr) : a.spelled.spelling.value = a.value := by
  obtain ⟨blanks, name, value⟩ := a
  cases value <;> rfl

theorem SpacedAttr.Legal.spelled {a : SpacedAttr} (h : a.Legal) : a.spelled.Legal where
  blanks := h.blanks
  named := h.named
  name := h.name
  spelling := by
    obtain ⟨blanks, name, value⟩ := a
    cases value with
    | present => exact .alone
    | text s => exact .quoted (by simp) (by simp) (.inl rfl) (h.value s rfl)

theorem flatMap_spelled (as : List SpacedAttr) :
    (as.map SpacedAttr.spelled).flatMap SpelledAttr.text = as.flatMap SpacedAttr.text := by
  simp only [List.flatMap_map, SpacedAttr.spelled_text]

theorem head_attrs (h : ∀ a ∈ as, a.Legal) (hblanks : ∀ c ∈ blanks, Text.isBlank c) :
    ∀ c ∈ (as.flatMap SpacedAttr.text ++ blanks).head?, Text.isBlank c := by
  rw [← flatMap_spelled]
  exact head_spelled (List.forall_mem_map.mpr fun a ha => (h a ha).spelled)
    (List.forall_mem_map.mpr fun a ha => (h a ha).apart) hblanks

/--
Attributes with different names are read back from the text that they are written as.
-/
theorem readAttributes_written (h : ∀ a ∈ as, a.Legal) (hnames : (as.map (·.name)).Nodup)
    (hblanks : ∀ c ∈ blanks, Text.isBlank c) :
    readAttributes (as.flatMap SpacedAttr.text ++ blanks) = attributesOf as := by
  have hlegal : ∀ a ∈ as.map SpacedAttr.spelled, a.Legal :=
    List.forall_mem_map.mpr fun a ha => (h a ha).spelled
  have hapart : ∀ a ∈ as.map SpacedAttr.spelled, a.blanks ≠ [] :=
    List.forall_mem_map.mpr fun a ha => (h a ha).apart
  have hnames : ((as.map SpacedAttr.spelled).map (·.name)).Nodup := by
    rwa [List.map_map]
  rw [← flatMap_spelled, readAttributes,
    go_attrs hlegal (fun a ha => hapart a (List.mem_of_mem_tail ha)) hnames hblanks
      (Nat.lt_succ_self _) (by simp)]
  simp only [List.nil_append, List.map_map, Function.comp_def, SpacedAttr.spelled_value, attributesOf]
  rfl

end Spaced

end Polyglot.Component
