import Polyglot.Proofs.Json.Written

/-!
The grammar of JSON texts, as RFC 8259 gives it, and that the texts of values are in it exactly when
all their numbers are finite.
-/

namespace Polyglot.Json

namespace Grammar

def IsBlank (cs : List Char) : Prop :=
  ∀ c ∈ cs, c = ' ' ∨ c = '\t' ∨ c = '\n' ∨ c = '\r'

/--
A structural character with blanks around it, such as `begin-array = ws %x5B ws`.
-/
inductive IsMark (c : Char) : List Char → Prop where
  | mk {before after : List Char} (hbefore : IsBlank before) (hafter : IsBlank after) :
      IsMark c (before ++ c :: after)

def IsDigits (cs : List Char) : Prop :=
  ∀ c ∈ cs, Text.isAsciiDigit c

inductive IsWhole : List Char → Prop where
  | zero : IsWhole ['0']
  | positive {c : Char} {cs : List Char} (hc : Text.isAsciiDigit c) (hne : c ≠ '0') (hcs : IsDigits cs) :
      IsWhole (c :: cs)

inductive IsPlaces : List Char → Prop where
  | none : IsPlaces []
  | some {cs : List Char} (hne : cs ≠ []) (hcs : IsDigits cs) : IsPlaces ('.' :: cs)

inductive IsPower : List Char → Prop where
  | none : IsPower []
  | some {e : Char} {sign cs : List Char} (he : e = 'e' ∨ e = 'E')
      (hsign : sign = [] ∨ sign = ['-'] ∨ sign = ['+']) (hne : cs ≠ []) (hcs : IsDigits cs) :
      IsPower (e :: (sign ++ cs))

inductive IsNumber : List Char → Prop where
  | mk {minus whole places power : List Char} (hminus : minus = [] ∨ minus = ['-'])
      (hwhole : IsWhole whole) (hplaces : IsPlaces places) (hpower : IsPower power) :
      IsNumber (minus ++ (whole ++ (places ++ power)))

def isHexDigit (c : Char) : Bool :=
  Text.isAsciiDigit c || ('a' ≤ c && c ≤ 'f') || ('A' ≤ c && c ≤ 'F')

/--
`char = unescaped / escape ( %x22 / %x5C / %x2F / %x62 / %x66 / %x6E / %x72 / %x74 / %x75 4HEXDIG )`
-/
inductive IsTextChar : List Char → Prop where
  | plain {c : Char} (hquote : c ≠ '"') (hescape : c ≠ '\\') (hc : 0x20 ≤ c.toNat) : IsTextChar [c]
  | escape {c : Char} (hc : c ∈ ['"', '\\', '/', 'b', 'f', 'n', 'r', 't']) : IsTextChar ['\\', c]
  | code {cs : List Char} (hlength : cs.length = 4) (hcs : ∀ c ∈ cs, isHexDigit c) :
      IsTextChar ('\\' :: 'u' :: cs)

inductive IsBody : List Char → Prop where
  | nil : IsBody []
  | cons {c cs : List Char} (hc : IsTextChar c) (hcs : IsBody cs) : IsBody (c ++ cs)

inductive IsText : List Char → Prop where
  | mk {cs : List Char} (h : IsBody cs) : IsText ('"' :: (cs ++ ['"']))

inductive Separated : List (List Char) → List Char → Prop where
  | nil : Separated [] []
  | one (v : List Char) : Separated [v] v
  | cons {v w cs comma : List Char} {vs : List (List Char)} (hcomma : IsMark ',' comma)
      (h : Separated (w :: vs) cs) : Separated (v :: w :: vs) (v ++ (comma ++ cs))

/--
A member of an object: its name, the name separator, and its value.
-/
structure Member where
  name : List Char
  colon : List Char
  value : List Char

def Member.text (m : Member) : List Char :=
  m.name ++ (m.colon ++ m.value)

/--
`value = false / null / true / object / array / number / string`
-/
inductive IsValue : List Char → Prop where
  | false : IsValue ['f', 'a', 'l', 's', 'e']
  | null : IsValue ['n', 'u', 'l', 'l']
  | true : IsValue ['t', 'r', 'u', 'e']
  | object {left right cs : List Char} {ms : List Member} (hleft : IsMark '\x7b' left)
      (hnames : ∀ m ∈ ms, IsText m.name ∧ IsMark ':' m.colon) (hvalues : ∀ m ∈ ms, IsValue m.value)
      (hcs : Separated (ms.map Member.text) cs) (hright : IsMark '\x7d' right) :
      IsValue (left ++ (cs ++ right))
  | array {left right cs : List Char} {vs : List (List Char)} (hleft : IsMark '[' left)
      (hvalues : ∀ v ∈ vs, IsValue v) (hcs : Separated vs cs) (hright : IsMark ']' right) :
      IsValue (left ++ (cs ++ right))
  | number {cs : List Char} (h : IsNumber cs) : IsValue cs
  | text {cs : List Char} (h : IsText cs) : IsValue cs

/--
`JSON-text = ws value ws`
-/
inductive IsDocument : List Char → Prop where
  | mk {before cs after : List Char} (hbefore : IsBlank before) (h : IsValue cs)
      (hafter : IsBlank after) : IsDocument (before ++ (cs ++ after))

theorem isMark (c : Char) : IsMark c [c] :=
  (.mk (by simp [IsBlank]) (by simp [IsBlank]) : IsMark c ([] ++ c :: []))

theorem separated (vs : List (List Char)) : Separated vs ([','].intercalate vs) := by
  induction vs with
  | nil => exact .nil
  | cons v vs ih =>
    cases vs with
    | nil =>
      rw [List.intercalate_singleton]
      exact .one v
    | cons w vs =>
      rw [List.intercalate_cons_cons, List.append_assoc]
      exact .cons (isMark ',') ih

theorem isDocument {cs : List Char} (h : IsValue cs) : IsDocument cs := by
  have hblank : IsBlank [] := by simp [IsBlank]
  have hmk := IsDocument.mk hblank h hblank
  rwa [List.append_nil, List.nil_append] at hmk

section Written

open Number

variable {level : Nat}

theorem isWhole_of_proper {n : Numeral} (h : n.Proper) : IsWhole n.whole := by
  rcases h.lead with heq | ⟨hne, hhead⟩
  · rw [heq]
    exact .zero
  · obtain ⟨c, cs, hcs⟩ := List.exists_cons_of_ne_nil hne
    have hall := h.whole
    rw [hcs] at hhead hall ⊢
    obtain ⟨hc, hall⟩ := List.forall_mem_cons.mp hall
    exact .positive hc (by simpa using hhead) hall

theorem isPlaces_pointed {places : List Char} (h : IsDigits places) :
    IsPlaces (Numeral.pointed places) := by
  cases places with
  | nil => exact .none
  | cons c places => exact .some (List.cons_ne_nil c places) h

theorem isPower_powered {exponent : Option (Bool × List Char)}
    (h : ∀ e ∈ exponent, e.2 ≠ [] ∧ IsDigits e.2) : IsPower (Numeral.powered exponent) := by
  rcases exponent with - | ⟨down, ds⟩
  · exact .none
  · obtain ⟨hne, hds⟩ := h _ rfl
    cases down with
    | true => exact .some (.inl rfl) (.inr (.inl rfl)) hne hds
    | false => exact .some (.inl rfl) (.inr (.inr rfl)) hne hds

theorem isNumber_text {n : Numeral} (h : n.Proper) : IsNumber n.text := by
  refine .mk ?_ (isWhole_of_proper h) (isPlaces_pointed h.places) (isPower_powered h.exponent)
  cases n.negative with
  | true => exact .inr rfl
  | false => exact .inl rfl

theorem isTextChar_escapeChar (c : Char) : IsTextChar (escapeChar c) := by
  have hdigits : ∀ n < 32, (Text.hexDigits 4 n).all isHexDigit := by
    decide +kernel
  simp only [escapeChar, beq_iff_eq]
  split_ifs with hquote hback _ _ _ _ _ hcontrol
  · exact .escape (by decide)
  · exact .escape (by decide)
  · exact .escape (by decide)
  · exact .escape (by decide)
  · exact .escape (by decide)
  · exact .escape (by decide)
  · exact .escape (by decide)
  · exact .code rfl (List.all_eq_true.mp (hdigits _ hcontrol))
  · exact .plain hquote hback (Nat.le_of_not_lt hcontrol)

theorem isBody_escaped (cs : List Char) : IsBody (cs.flatMap escapeChar) := by
  induction cs with
  | nil => exact .nil
  | cons c cs ih =>
    rw [List.flatMap_cons]
    exact .cons (isTextChar_escapeChar c) ih

theorem isText_writeText (s : String) : IsText (writeText s).toList := by
  rw [writeText_toList]
  exact .mk (isBody_escaped s.toList)

end Written

end Grammar

/--
Whether all numbers that are written are finite. Keys do not count: they are written as texts.
-/
def finite : Value → Bool
  | .float x => x.isFinite
  | .list xs => all xs
  | .tuple xs => all xs
  | .map es => fields es
  | _ => true
where
  all : List Value → Bool
    | [] => true
    | x :: xs => finite x && all xs
  fields : List (Value × Value) → Bool
    | [] => true
    | (_, v) :: es => finite v && fields es

theorem finite_all (xs : List Value) : finite.all xs = xs.all finite := by
  induction xs with
  | nil => rfl
  | cons x xs ih => rw [finite.all, ih, List.all_cons]

theorem finite_fields (es : Fields) : finite.fields es = es.all fun e => finite e.2 := by
  induction es with
  | nil => rfl
  | cons e es ih => rw [finite.fields, ih, List.all_cons]

section Values

open Grammar

variable {level : Nat} {v : Value} {s : String}

theorem isValue_number {x : Binary64} (hx : x.isFinite) : IsValue (writeNumber x).toList := by
  obtain ⟨hnan, hinfinite⟩ := Binary64.not_of_isFinite hx
  obtain ⟨n, hn, htext⟩ := Binary64.exists_numeral hx
  rw [writeNumber, if_neg hnan, if_neg hinfinite, htext]
  exact .number (isNumber_text hn.proper)

theorem isValue_items {xs : List Value} {parts : List String}
    (h : List.Forall₂ (fun _ s => IsValue s.toList) xs parts) :
    IsValue (enclose compact level "[" "]" parts).toList := by
  rw [enclose_toList]
  refine .array (isMark '[') ?_ (separated _) (isMark ']')
  induction h with
  | nil => simp
  | cons hx _ ih => exact List.forall_mem_cons.mpr ⟨hx, ih⟩

def memberOf (e : Value × Value) (s : String) : Member :=
  ⟨(writeText (keyText e.1)).toList, [':'], s.toList⟩

theorem memberOf_text (e : Value × Value) (s : String) : (memberOf e s).text = member e s := by
  simp [memberOf, Member.text, member, writeText_toList]

theorem memberOf_names (e : Value × Value) (s : String) :
    IsText (memberOf e s).name ∧ IsMark ':' (memberOf e s).colon := by
  dsimp only [memberOf]
  exact ⟨isText_writeText (keyText e.1), isMark ':'⟩

theorem isValue_fields {es : Fields} {parts : List String}
    (h : List.Forall₂ (fun e cs => ∃ s, cs = member e s ∧ IsValue s.toList) es
      (parts.map String.toList)) :
    IsValue (enclose compact level "\x7b" "\x7d" parts).toList := by
  obtain ⟨ms, hms, hnames, hvalues⟩ : ∃ ms : List Member, parts.map String.toList = ms.map Member.text ∧
      (∀ m ∈ ms, IsText m.name ∧ IsMark ':' m.colon) ∧ ∀ m ∈ ms, IsValue m.value := by
    generalize parts.map String.toList = ts at h
    induction h with
    | nil => exact ⟨[], rfl, by simp, by simp⟩
    | @cons e _ _ _ he _ ih =>
      obtain ⟨s, rfl, hs⟩ := he
      obtain ⟨ms, rfl, hnames, hvalues⟩ := ih
      refine ⟨memberOf e s :: ms, by rw [List.map_cons, memberOf_text], ?_, ?_⟩
      · exact List.forall_mem_cons.mpr ⟨memberOf_names e s, hnames⟩
      · exact List.forall_mem_cons.mpr ⟨hs, hvalues⟩
  rw [enclose_toList, hms]
  exact .object (isMark '\x7b') hnames hvalues (separated _) (isMark '\x7d')

theorem isValue_plain (hlist : ∀ xs, v ≠ .list xs) (htuple : ∀ xs, v ≠ .tuple xs)
    (hmap : ∀ es, v ≠ .map es) (hs : write? compact level v = some s) (hfinite : finite v) :
    IsValue s.toList := by
  cases v with
  | null =>
    obtain rfl := Option.some.inj hs
    exact .null
  | bool b =>
    obtain rfl := Option.some.inj hs
    cases b with
    | true => exact .true
    | false => exact .false
  | int n =>
    obtain rfl := Option.some.inj hs
    rw [toString_int]
    exact .number (isNumber_text (numeralOf_proper n))
  | float x =>
    obtain rfl := Option.some.inj hs
    exact isValue_number hfinite
  | str t =>
    obtain rfl := Option.some.inj hs
    exact .text (isText_writeText t)
  | list xs => exact absurd rfl (hlist xs)
  | tuple xs => exact absurd rfl (htuple xs)
  | map es => exact absurd rfl (hmap es)
  | _ =>
    rw [write?, compact, Option.map_some, Option.some.injEq] at hs
    · rw [← hs]
      exact .text (isText_writeText _)
    all_goals simp

theorem isValue_written (hs : write? compact level v = some s) (hfinite : finite v) :
    IsValue s.toList := by
  induction v using written_induct generalizing level s with
  | hlist xs ih =>
    obtain ⟨parts, hparts, rfl⟩ := Option.map_eq_some_iff.mp hs
    rw [finite, finite_all, List.all_eq_true] at hfinite
    exact isValue_items (forall₂_all (fun x hx s hs => ih x hx hs (hfinite x hx)) hparts)
  | htuple xs ih =>
    obtain ⟨parts, hparts, rfl⟩ := Option.map_eq_some_iff.mp hs
    rw [finite, finite_all, List.all_eq_true] at hfinite
    exact isValue_items (forall₂_all (fun x hx s hs => ih x hx hs (hfinite x hx)) hparts)
  | hmap es ih =>
    obtain ⟨parts, hparts, rfl⟩ := Option.map_eq_some_iff.mp hs
    rw [finite, finite_fields, List.all_eq_true] at hfinite
    exact isValue_fields (forall₂_fields (fun e he s hs => ⟨s, rfl, ih e he hs (hfinite e he)⟩) hparts)
  | hplain v hlist htuple hmap => exact isValue_plain hlist htuple hmap hs hfinite

end Values

namespace Grammar

def named : Bool → List Char → Bool
  | _, [] => false
  | false, c :: cs => if c = '"' then named true cs else c = 'N' || c = 'I' || named false cs
  | true, '\\' :: _ :: cs => named true cs
  | true, c :: cs => named (c ≠ '"') cs

def Quiet (cs : List Char) : Prop :=
  ∀ rest, named false (cs ++ rest) = named false rest

theorem Quiet.append {cs ds : List Char} (hcs : Quiet cs) (hds : Quiet ds) : Quiet (cs ++ ds) := by
  intro rest
  rw [List.append_assoc, hcs, hds]

theorem quiet_of_forall {cs : List Char} (h : ∀ c ∈ cs, c ∉ ['"', 'N', 'I']) : Quiet cs := by
  intro rest
  induction cs with
  | nil => rfl
  | cons c cs ih =>
    obtain ⟨hc, hcs⟩ := List.forall_mem_cons.mp h
    simp only [List.mem_cons, List.not_mem_nil, or_false, not_or] at hc
    rw [List.cons_append, named, if_neg hc.1, ih hcs]
    simp [hc]

theorem named_plain {c : Char} (hquote : c ≠ '"') (hescape : c ≠ '\\') (cs : List Char) :
    named true (c :: cs) = named true cs := by
  rw [named.eq_def]
  simp [hquote, hescape]

theorem isTextChar_named {cs : List Char} (h : IsTextChar cs) (rest : List Char) :
    named true (cs ++ rest) = named true rest := by
  cases h with
  | plain hquote hescape _ => exact named_plain hquote hescape rest
  | escape _ => rfl
  | @code cs _ hcs =>
    rw [List.cons_append, List.cons_append, named]
    clear * - hcs
    induction cs with
    | nil => rfl
    | cons c cs ih =>
      obtain ⟨hc, hcs⟩ := List.forall_mem_cons.mp hcs
      have hquote : c ≠ '"' := by
        rintro rfl
        exact absurd hc (by decide)
      have hescape : c ≠ '\\' := by
        rintro rfl
        exact absurd hc (by decide)
      rw [List.cons_append, named_plain hquote hescape, ih hcs]

theorem IsText.quiet {cs : List Char} (h : IsText cs) : Quiet cs := by
  intro rest
  obtain ⟨hbody⟩ := h
  rw [List.cons_append, named, if_pos rfl, List.append_assoc]
  induction hbody with
  | nil => rfl
  | cons hc _ ih => rw [List.append_assoc, isTextChar_named hc, ih]

theorem IsBlank.quiet {cs : List Char} (h : IsBlank cs) : Quiet cs := by
  refine quiet_of_forall fun c hc => ?_
  rcases h c hc with rfl | rfl | rfl | rfl <;> decide

theorem IsMark.quiet {c : Char} {cs : List Char} (h : IsMark c cs) (hc : c ∉ ['"', 'N', 'I']) :
    Quiet cs := by
  obtain ⟨hbefore, hafter⟩ := h
  exact hbefore.quiet.append ((quiet_of_forall (List.forall_mem_singleton.mpr hc)).append hafter.quiet)

theorem IsDigits.quiet {cs : List Char} (h : IsDigits cs) : Quiet cs := by
  refine quiet_of_forall fun c hc hmem => ?_
  simp only [List.mem_cons, List.not_mem_nil, or_false] at hmem
  rcases hmem with rfl | rfl | rfl <;> exact absurd (h _ hc) (by decide)

theorem quiet_char {c : Char} (h : c ∉ ['"', 'N', 'I']) : Quiet [c] :=
  quiet_of_forall (List.forall_mem_singleton.mpr h)

theorem IsNumber.quiet {cs : List Char} (h : IsNumber cs) : Quiet cs := by
  obtain ⟨hminus, hwhole, hplaces, hpower⟩ := h
  refine .append ?_ (.append ?_ (.append ?_ ?_))
  · rcases hminus with rfl | rfl
    · exact fun _ => rfl
    · exact quiet_char (by decide)
  · cases hwhole with
    | zero => exact quiet_char (by decide)
    | positive hc _ hcs => exact IsDigits.quiet (List.forall_mem_cons.mpr ⟨hc, hcs⟩)
  · cases hplaces with
    | none => exact fun _ => rfl
    | some _ hcs => exact (quiet_char (c := '.') (by decide)).append hcs.quiet
  · cases hpower with
    | none => exact fun _ => rfl
    | @some e sign cs he hsign _ hcs =>
      rw [← List.singleton_append]
      refine .append ?_ (.append ?_ hcs.quiet)
      · rcases he with rfl | rfl <;> exact quiet_char (by decide)
      · rcases hsign with rfl | rfl | rfl
        · exact fun _ => rfl
        · exact quiet_char (by decide)
        · exact quiet_char (by decide)

theorem Separated.quiet {vs : List (List Char)} {cs : List Char} (h : Separated vs cs)
    (hvs : ∀ v ∈ vs, Quiet v) : Quiet cs := by
  induction h with
  | nil => exact fun _ => rfl
  | one v => exact hvs v List.mem_cons_self
  | cons hcomma _ ih =>
    obtain ⟨hv, hvs⟩ := List.forall_mem_cons.mp hvs
    exact hv.append ((hcomma.quiet (by decide)).append (ih hvs))

theorem IsValue.quiet {cs : List Char} (h : IsValue cs) : Quiet cs := by
  induction h with
  | false => exact quiet_of_forall (by simp)
  | null => exact quiet_of_forall (by simp)
  | true => exact quiet_of_forall (by simp)
  | object hleft hnames _ hcs hright ih =>
    refine (hleft.quiet (by decide)).append (.append (hcs.quiet ?_) (hright.quiet (by decide)))
    refine List.forall_mem_map.mpr fun m hm => ?_
    obtain ⟨hname, hcolon⟩ := hnames m hm
    exact hname.quiet.append ((hcolon.quiet (by decide)).append (ih m hm))
  | array hleft _ hcs hright ih =>
    exact (hleft.quiet (by decide)).append ((hcs.quiet ih).append (hright.quiet (by decide)))
  | number h => exact h.quiet
  | text h => exact h.quiet

theorem IsDocument.named_eq {cs : List Char} (h : IsDocument cs) : named false cs = false := by
  obtain ⟨hbefore, h, hafter⟩ := h
  have hquiet := hbefore.quiet.append (h.quiet.append hafter.quiet) []
  rwa [List.append_nil] at hquiet

end Grammar

section Values

open Grammar

variable {level : Nat} {v : Value} {s : String}

/--
Whatever follows, the text of a value has a name outside its texts exactly when a number is not finite.
-/
def Shows (v : Value) (cs : List Char) : Prop :=
  ∀ rest, named false (cs ++ rest) = (!finite v || named false rest)

theorem shows_number {x : Binary64} (hx : ¬ x.isFinite) (rest : List Char) :
    named false ((writeNumber x).toList ++ rest) = true := by
  rw [writeNumber]
  split
  · rfl
  · next hnan =>
    split
    · split <;> rfl
    · next hinfinite => exact absurd (Binary64.isFinite_of_not hnan hinfinite) hx

theorem shows_plain (hlist : ∀ xs, v ≠ .list xs) (htuple : ∀ xs, v ≠ .tuple xs)
    (hmap : ∀ es, v ≠ .map es) (hs : write? compact level v = some s) : Shows v s.toList := by
  intro rest
  by_cases hfinite : finite v
  · rw [(isValue_written hs hfinite).quiet, hfinite]
    rfl
  · cases v with
    | float x =>
      obtain rfl := Option.some.inj hs
      rw [shows_number hfinite, Bool.not_eq_true _ |>.mp hfinite]
      rfl
    | list xs => exact absurd rfl (hlist xs)
    | tuple xs => exact absurd rfl (htuple xs)
    | map es => exact absurd rfl (hmap es)
    | _ => exact absurd rfl hfinite

theorem named_cons {c : Char} (h : c ∉ ['"', 'N', 'I']) (cs : List Char) :
    named false (c :: cs) = named false cs :=
  quiet_char h cs

theorem named_intercalate {α : Type} {p : α → Bool} {xs : List α} {ts : List (List Char)}
    (h : List.Forall₂ (fun x t => ∀ rest, named false (t ++ rest) = (!p x || named false rest)) xs ts)
    (rest : List Char) :
    named false ([','].intercalate ts ++ rest) = (!xs.all p || named false rest) := by
  induction h with
  | nil => rfl
  | @cons x t xs ts hx hxs ih =>
    rw [List.all_cons, Bool.not_and, Bool.or_assoc, ← ih]
    cases hxs with
    | nil => rw [List.intercalate_singleton, hx, List.intercalate_nil, List.nil_append]
    | cons hx' hxs =>
      rw [List.intercalate_cons_cons, List.append_assoc, List.append_assoc, hx, List.singleton_append,
        named_cons (by decide)]

theorem shows_items {xs : List Value} {parts : List String}
    (h : List.Forall₂ (fun x s => Shows x s.toList) xs parts) (hv : finite v = finite.all xs) :
    Shows v (enclose compact level "[" "]" parts).toList := by
  intro rest
  have hnamed := named_intercalate (List.forall₂_map_right_iff.mpr h)
  rw [enclose_toList, List.append_assoc, List.append_assoc, hv, finite_all]
  exact (named_cons (by decide) _).trans
    ((hnamed _).trans (congrArg _ (named_cons (by decide) _)))

theorem shows_member {e : Value × Value} (h : Shows e.2 s.toList) (rest : List Char) :
    named false (member e s ++ rest) = (!finite e.2 || named false rest) := by
  rw [← memberOf_text, Member.text, memberOf, List.append_assoc, (isText_writeText _).quiet,
    List.append_assoc]
  exact (named_cons (by decide) _).trans (h rest)

theorem shows_fields {es : Fields} {parts : List String}
    (h : List.Forall₂ (fun e cs => ∃ s, cs = member e s ∧ Shows e.2 s.toList) es
      (parts.map String.toList)) :
    Shows (.map es) (enclose compact level "\x7b" "\x7d" parts).toList := by
  intro rest
  have hnamed := named_intercalate (p := fun e => finite e.2) (h.imp fun e cs he => by
    obtain ⟨s, rfl, hs⟩ := he
    exact shows_member hs)
  rw [enclose_toList, List.append_assoc, List.append_assoc, finite, finite_fields]
  exact (named_cons (by decide) _).trans
    ((hnamed _).trans (congrArg _ (named_cons (by decide) _)))

theorem shows_written (hs : write? compact level v = some s) : Shows v s.toList := by
  induction v using written_induct generalizing level s with
  | hlist xs ih =>
    obtain ⟨parts, hparts, rfl⟩ := Option.map_eq_some_iff.mp hs
    exact shows_items (forall₂_all (fun x hx _ hs => ih x hx hs) hparts) rfl
  | htuple xs ih =>
    obtain ⟨parts, hparts, rfl⟩ := Option.map_eq_some_iff.mp hs
    exact shows_items (forall₂_all (fun x hx _ hs => ih x hx hs) hparts) rfl
  | hmap es ih =>
    obtain ⟨parts, hparts, rfl⟩ := Option.map_eq_some_iff.mp hs
    exact shows_fields (forall₂_fields (fun e he s hs => ⟨s, rfl, ih e he hs⟩) hparts)
  | hplain v hlist htuple hmap => exact shows_plain hlist htuple hmap hs

theorem isDocument_iff (hs : write? compact level v = some s) : IsDocument s.toList ↔ finite v := by
  refine ⟨fun h => ?_, fun hfinite => isDocument (isValue_written hs hfinite)⟩
  have hshows := shows_written hs []
  rw [List.append_nil, h.named_eq] at hshows
  simpa [named] using hshows

end Values

end Polyglot.Json
