import Polyglot.Json.Reader
import Polyglot.Proofs.Json.Written

/-!
Reading back what has been written as JSON.
-/

namespace Polyglot.Json

open Number

/--
What stands behind a number does not go on with it.
-/
def Ends (rest : List Char) : Prop :=
  ∀ c ∈ rest.head?, Text.isAsciiDigit c = false ∧ c ≠ '.' ∧ c ≠ 'e' ∧ c ≠ 'E'

section Numbers

def cutMinus (cs : List Char) : List Char × List Char :=
  match cs with
  | '-' :: rest => (['-'], rest)
  | _ => ([], cs)

def wholeOf (cs : List Char) : List Char :=
  match cs with
  | '0' :: _ => ['0']
  | _ => cs.takeWhile Text.isAsciiDigit

def cutPlaces (cs : List Char) : List Char × List Char :=
  match cs with
  | '.' :: more =>
    let ds := more.takeWhile Text.isAsciiDigit
    if ds.isEmpty then ([], cs) else ('.' :: ds, more.dropWhile Text.isAsciiDigit)
  | _ => ([], cs)

def cutPower (cs : List Char) : List Char × List Char :=
  match cs with
  | e :: more =>
    if e == 'e' || e == 'E' then
      let (mark, more) := match more with
        | '-' :: r => (['-'], r)
        | '+' :: r => (['+'], r)
        | r => ([], r)
      let ds := more.takeWhile Text.isAsciiDigit
      if ds.isEmpty then ([], cs) else (e :: mark ++ ds, more.dropWhile Text.isAsciiDigit)
    else ([], cs)
  | [] => ([], cs)

def spelled (left : Nat) (rest : List Char) (f : Option Fraction) : Step Value :=
  match f with
  | some f => .ok (.float f.toBinary64, rest)
  | none => .error (.value, left)

theorem number_eq (cs : List Char) :
    number cs =
      let sign := (cutMinus cs).1
      let body := (cutMinus cs).2
      let whole := wholeOf body
      let part := (cutPlaces (body.drop whole.length)).1
      let power := (cutPower (cutPlaces (body.drop whole.length)).2).1
      let rest := (cutPower (cutPlaces (body.drop whole.length)).2).2
      if whole.isEmpty then .error (.value, cs.length)
      else if part.isEmpty && power.isEmpty then
        if whole.length > digitLimit then .error (.digits, cs.length)
        else .ok (.int (if sign.isEmpty then Text.ofDecimals whole else -Text.ofDecimals whole), rest)
      else
        spelled cs.length rest (fraction? (sign ++ whole ++ part ++ power)) :=
  rfl

variable {n : Numeral} {rest : List Char}

theorem Ends.head_powered (h : Ends rest) (exponent : Option (Bool × List Char)) :
    ∀ c ∈ (Numeral.powered exponent ++ rest).head?, Text.isAsciiDigit c = false ∧ c ≠ '.' := by
  rcases exponent with - | ⟨down, ds⟩
  · exact fun c hc => ⟨(h c hc).1, (h c hc).2.1⟩
  · simp [Numeral.powered, show Text.isAsciiDigit 'e' = false from rfl]

theorem Ends.head_pointed (h : Ends rest) (places : List Char) (exponent : Option (Bool × List Char)) :
    ∀ c ∈ (Numeral.pointed places ++ (Numeral.powered exponent ++ rest)).head?,
      Text.isAsciiDigit c = false := by
  rcases places with - | ⟨d, places⟩
  · exact fun c hc => (h.head_powered exponent c hc).1
  · simp [Numeral.pointed, show Text.isAsciiDigit '.' = false from rfl]

theorem cutPower_powered (hrest : Ends rest) {exponent : Option (Bool × List Char)}
    (h : ∀ e ∈ exponent, e.2 ≠ [] ∧ ∀ c ∈ e.2, Text.isAsciiDigit c) :
    cutPower (Numeral.powered exponent ++ rest) = (Numeral.powered exponent, rest) := by
  rcases exponent with - | ⟨down, ds⟩
  · rw [Numeral.powered, List.nil_append]
    cases rest with
    | nil => rfl
    | cons c rest =>
      obtain ⟨-, -, he, hE⟩ := hrest c rfl
      rw [cutPower.eq_def]
      dsimp only
      rw [if_neg (by simp [he, hE])]
  · obtain ⟨hne, hds⟩ := h _ rfl
    obtain ⟨htake, hdrop⟩ := Text.takeWhile_stop hds fun c hc => (hrest c hc).1
    cases down <;> simp [cutPower, Numeral.powered, htake, hdrop, hne]

theorem cutPlaces_pointed (hrest : Ends rest) (exponent : Option (Bool × List Char)) {places : List Char}
    (h : ∀ c ∈ places, Text.isAsciiDigit c) :
    cutPlaces (Numeral.pointed places ++ (Numeral.powered exponent ++ rest)) =
      (Numeral.pointed places, Numeral.powered exponent ++ rest) := by
  have hhead := hrest.head_powered exponent
  rcases places with - | ⟨d, places⟩
  · rw [show Numeral.pointed [] = [] from rfl, List.nil_append]
    generalize Numeral.powered exponent ++ rest = cs at *
    rw [cutPlaces.eq_def]
    split
    · next more => exact absurd rfl (hhead '.' rfl).2
    · rfl
  · obtain ⟨htake, hdrop⟩ := Text.takeWhile_stop h fun c hc => (hhead c hc).1
    rw [Numeral.pointed_cons, List.cons_append, cutPlaces]
    simp only [htake, hdrop]
    rfl

theorem wholeOf_append (h : n.Proper) (hrest : Ends rest) :
    wholeOf (n.whole ++ (Numeral.pointed n.places ++ (Numeral.powered n.exponent ++ rest))) =
      n.whole := by
  rcases h.lead with heq | ⟨hne, hhead⟩
  · rw [heq]
    rfl
  · obtain ⟨htake, -⟩ := Text.takeWhile_stop h.whole (hrest.head_pointed n.places n.exponent)
    obtain ⟨c, cs, hcs⟩ := List.exists_cons_of_ne_nil hne
    rw [hcs] at hhead htake ⊢
    rw [wholeOf.eq_def]
    split
    · next heq => exact absurd (congrArg List.head? heq) hhead
    · exact htake

theorem cutMinus_text (h : n.Proper) :
    cutMinus (n.text ++ rest) =
      (Numeral.sign n.negative,
        n.whole ++ (Numeral.pointed n.places ++ (Numeral.powered n.exponent ++ rest))) := by
  obtain ⟨c, cs, hcs, hc⟩ := h.exists_cons
  rw [Numeral.text, hcs]
  cases n.negative with
  | true => simp [Numeral.sign, cutMinus]
  | false =>
    simp only [Numeral.sign, List.append_assoc, List.cons_append]
    rw [cutMinus.eq_def]
    split
    · next heq => exact absurd hc (by rw [(List.cons.inj heq).1]; decide)
    · rfl

theorem number_text (h : n.Proper) (hrest : Ends rest) :
    number (n.text ++ rest) =
      if n.places.isEmpty && n.exponent.isNone then
        if n.whole.length > digitLimit then .error (.digits, (n.text ++ rest).length)
        else .ok (.int
          (if n.negative then -(Text.ofDecimals n.whole : Int) else Text.ofDecimals n.whole), rest)
      else .ok (.float (Fraction.toBinary64 ⟨n.negative, n.whole ++ n.places, n.power⟩), rest) := by
  have hne : n.whole ≠ [] := by
    obtain ⟨c, cs, hcs, -⟩ := h.exists_cons
    rw [hcs]
    exact List.cons_ne_nil c cs
  rw [number_eq]
  simp only [cutMinus_text h, wholeOf_append h hrest, List.drop_left,
    cutPlaces_pointed hrest n.exponent h.places, cutPower_powered hrest h.exponent]
  have hfraction := Numeral.fraction?_text h
  rw [Numeral.text, ← List.append_assoc, ← List.append_assoc] at hfraction
  rw [if_neg (by simpa using hne), hfraction, spelled]
  have hint : ((Numeral.pointed n.places).isEmpty && (Numeral.powered n.exponent).isEmpty) =
      (n.places.isEmpty && n.exponent.isNone) := by
    cases n.places <;> rcases n.exponent with - | ⟨down, ds⟩ <;> rfl
  have hsign (m : Int) : (if (Numeral.sign n.negative).isEmpty then m else -m) =
      if n.negative then -m else m := by
    cases n.negative <;> rfl
  rw [hint, hsign]

theorem constant?_text (h : n.Proper) (rest : List Char) : constant? (n.text ++ rest) = none := by
  obtain ⟨c, cs, hcs, hc⟩ := h.exists_cons
  have hn : ¬ 'n' = c := by rintro rfl; exact absurd hc (by decide)
  have ht : ¬ 't' = c := by rintro rfl; exact absurd hc (by decide)
  have hf : ¬ 'f' = c := by rintro rfl; exact absurd hc (by decide)
  have hN : ¬ 'N' = c := by rintro rfl; exact absurd hc (by decide)
  have hI : ¬ 'I' = c := by rintro rfl; exact absurd hc (by decide)
  have hminus : ¬ '-' = c := by rintro rfl; exact absurd hc (by decide)
  rw [Numeral.text, hcs]
  cases n.negative <;> simp [Numeral.sign, constant?, List.isPrefixOf, *]

end Numbers

section Texts

variable {start fuel : Nat} {read : List Text.Part} {more rest : List Char} {c d : Char}

theorem textBody_plain (hquote : c ≠ '"') (hback : c ≠ '\\') (hc : ¬ c.toNat < 32) :
    textBody start (fuel + 1) read (c :: more) = textBody start fuel (.char c :: read) more := by
  rw [textBody.eq_def]
  simp [hback, hc]

theorem textBody_escape (h : simpleEscape? c = some d) :
    textBody start (fuel + 1) read ('\\' :: c :: more) = textBody start fuel (.char d :: read) more := by
  have hu : c ≠ 'u' := by
    rintro rfl
    cases h
  rw [textBody.eq_def]
  simp [h]

theorem textBody_code {n : Nat} (hn : n < 32) (hmore : more ≠ []) :
    textBody start (fuel + 1) read ('\\' :: 'u' :: (Text.hexDigits 4 n ++ more)) =
      textBody start fuel (.char (Char.ofNat n) :: read) more := by
  have hlength : (Text.hexDigits 4 n).length = 4 := rfl
  have hdigits : ∀ n < 32, hexNumber? (Text.hexDigits 4 n) = some n ∧
      Text.Part.ofCode n = .char (Char.ofNat n) ∧ isHighSurrogate n = false := by
    decide +kernel
  have hcode : code? (Text.hexDigits 4 n ++ more) = some (n, more) := by
    have := List.length_pos_of_ne_nil hmore
    rw [code?, if_neg (by rw [List.length_append, hlength]; omega), List.take_left' hlength,
      List.drop_left' hlength, (hdigits n hn).1]
    rfl
  rw [textBody.eq_def]
  simp [hcode, (hdigits n hn).2]

theorem textBody_char (c : Char) (hmore : more ≠ []) :
    textBody start (fuel + 1) read (escapeChar c ++ more) = textBody start fuel (.char c :: read) more := by
  simp only [escapeChar, beq_iff_eq]
  split_ifs with hquote hback hline hreturn htab hb hf hcontrol
  · subst hquote; exact textBody_escape rfl
  · subst hback; exact textBody_escape rfl
  · subst hline; exact textBody_escape rfl
  · subst hreturn; exact textBody_escape rfl
  · subst htab; exact textBody_escape rfl
  · subst hb; exact textBody_escape rfl
  · subst hf; exact textBody_escape rfl
  · rw [List.cons_append, List.cons_append, textBody_code hcontrol hmore, Char.ofNat_toNat]
  · exact textBody_plain hquote hback hcontrol

theorem length_le_escaped (cs : List Char) : cs.length ≤ (cs.flatMap escapeChar).length := by
  have hone (c : Char) : 0 < (escapeChar c).length := by
    simp only [escapeChar]
    split_ifs <;> exact Nat.succ_pos _
  induction cs with
  | nil => exact Nat.le_refl 0
  | cons c cs ih =>
    have := hone c
    rw [List.flatMap_cons, List.length_append, List.length_cons]
    omega

theorem textBody_escaped (cs : List Char) (hfuel : cs.length < fuel) :
    textBody start fuel read (cs.flatMap escapeChar ++ '"' :: rest) =
      .ok (read.reverse ++ cs.map .char, rest) := by
  induction cs generalizing fuel read with
  | nil =>
    obtain ⟨fuel, rfl⟩ := Nat.exists_eq_succ_of_ne_zero (Nat.ne_zero_of_lt hfuel)
    rw [List.flatMap_nil, List.nil_append, List.map_nil, List.append_nil]
    rfl
  | cons c cs ih =>
    obtain ⟨fuel, rfl⟩ := Nat.exists_eq_succ_of_ne_zero (Nat.ne_zero_of_lt hfuel)
    rw [List.flatMap_cons, List.append_assoc, textBody_char c (by simp),
      ih (Nat.lt_of_succ_lt_succ hfuel), List.reverse_cons, List.append_assoc]
    rfl

end Texts

section Elements

variable {fuel depth : Nat} {c : Char} {cs rest : List Char}

def opening : List Char :=
  ['"', '[', '\x7b']

theorem element_number (hc : c ∉ opening) (h : constant? (c :: cs) = none) :
    element (fuel + 1) depth (c :: cs) = number (c :: cs) := by
  simp only [opening, List.mem_cons, List.not_mem_nil, or_false, not_or] at hc
  rw [element.eq_def]
  simp [hc, h]

theorem element_constant {found : Value × List Char} (hc : c ∉ opening)
    (h : constant? (c :: cs) = some found) : element (fuel + 1) depth (c :: cs) = .ok found := by
  simp only [opening, List.mem_cons, List.not_mem_nil, or_false, not_or] at hc
  rw [element.eq_def]
  simp [hc, h]

theorem ofParts_chars (s : String) : Value.ofParts (s.toList.map .char) = .str s := by
  have hwhole : ¬ (s.toList.map Text.Part.char).any Text.Part.isHalf := by
    simp [Text.Part.isHalf]
  have hmended : Text.Part.mended ∘ Text.Part.char = id := rfl
  rw [Value.ofParts, dif_neg hwhole, Text.mended, List.map_map, hmended, List.map_id, String.ofList_toList]

theorem element_text (s : String) :
    element (fuel + 1) depth ((writeText s).toList ++ rest) = .ok (.str s, rest) := by
  have hbody : (writeText s).toList ++ rest =
      '"' :: (s.toList.flatMap escapeChar ++ '"' :: rest) := by
    simp [writeText]
  have hfuel := length_le_escaped s.toList
  rw [hbody, element, textBody_escaped _ (by rw [List.length_append]; omega)]
  simp [Except.map, ofParts_chars]

end Elements

/--
The value that is read back: what JSON does not have is its plain text, tuples are lists, and of the
entries of a mapping that have the same key in writing the last one counts.
-/
def readBack : Value → Value
  | .null => .null
  | .bool b => .bool b
  | .int n => .int n
  | .float x => .float (if x.isNaN then .nan else x)
  | .str s => .str s
  | .list xs => .list (all xs)
  | .tuple xs => .list (all xs)
  | .map es => .map (Value.ofEntries (fields es))
  | v => .str v.plain
where
  all : List Value → List Value
    | [] => []
    | x :: xs => readBack x :: all xs
  fields : List (Value × Value) → List (Value × Value)
    | [] => []
    | (k, v) :: es => (.str (keyText k), readBack v) :: fields es

/--
Whether a value keeps to the limits of the reader: how deep lists and objects stand in one another,
and how many digits integers have.
-/
def fits (depth : Nat) : Value → Bool
  | .int n => (Binary64.digitsOf n.natAbs).length ≤ digitLimit
  | .list xs => 0 < depth && all (depth - 1) xs
  | .tuple xs => 0 < depth && all (depth - 1) xs
  | .map es => 0 < depth && fields (depth - 1) es
  | _ => true
where
  all (depth : Nat) : List Value → Bool
    | [] => true
    | x :: xs => fits depth x && all depth xs
  fields (depth : Nat) : List (Value × Value) → Bool
    | [] => true
    | (_, v) :: es => fits depth v && fields depth es

section Values

variable {depth level : Nat} {cs : List Char} {v : Value} {s : String}

/--
The faults by which the reader keeps to its limits.
-/
def limits : List Fault :=
  [.digits, .depth]

/--
What reading gives for a value that is within the limits or not.
-/
structure Gives (within : Bool) (v : Value) (rest : List Char) (r : Step Value) : Prop where
  read (h : within) : r = .ok (v, rest)
  refused (h : ¬ within) : ∃ fault ∈ limits, ∃ left, r = .error (fault, left)

section Gives

variable {p q : Bool} {w : Value} {rest after : List Char} {r : Step Value}

theorem Gives.of_eq (h : r = .ok (v, rest)) : Gives true v rest r :=
  ⟨fun _ => h, fun hnot => absurd rfl hnot⟩

theorem Gives.of_error {fault : Fault} {left : Nat} (h : fault ∈ limits) :
    Gives false v rest (.error (fault, left)) :=
  ⟨Bool.noConfusion, fun _ => ⟨fault, h, left, rfl⟩⟩

theorem Gives.bind {f : Step Value → Step Value} (h : Gives p v rest r)
    (herror : ∀ e, f (.error e) = .error e) (hok : Gives q w after (f (.ok (v, rest)))) :
    Gives (p && q) w after (f r) := by
  by_cases hp : p
  · rw [h.read hp, hp, Bool.true_and]
    exact hok
  · obtain ⟨fault, hfault, left, heq⟩ := h.refused hp
    rw [heq, herror, Bool.not_eq_true _ |>.mp hp, Bool.false_and]
    exact ⟨by simp, fun _ => ⟨fault, hfault, left, rfl⟩⟩

end Gives

/--
In front of anything that does not go on with it, a text reads as what is read back of a value.
-/
structure Reads (depth : Nat) (v : Value) (cs : List Char) : Prop where
  head : ∃ c rest, cs = c :: rest ∧ isSpace c = false ∧ c ≠ ']' ∧ c ≠ '\uFEFF'
  element (fuel : Nat) (rest : List Char) (hrest : Ends rest) (hfuel : 2 * cs.length ≤ fuel) :
    Gives (fits depth v) (readBack v) rest (element fuel depth (cs ++ rest))

theorem skipSpace_cons {c : Char} (h : isSpace c = false) (cs : List Char) :
    skipSpace (c :: cs) = c :: cs :=
  List.dropWhile_cons_of_neg (by simp [h])

theorem Reads.skipSpace (h : Reads depth v cs) (rest : List Char) :
    skipSpace (cs ++ rest) = cs ++ rest := by
  obtain ⟨c, more, rfl, hc, -⟩ := h.head
  exact skipSpace_cons hc _

theorem Reads.length_pos (h : Reads depth v cs) : 0 < cs.length := by
  obtain ⟨c, more, rfl, -⟩ := h.head
  exact Nat.succ_pos _

theorem ends_of_sign {c : Char} (hc : c ∈ [',', ']', '\x7d']) (rest : List Char) : Ends (c :: rest) := by
  rintro _ ⟨⟩
  simp only [List.mem_cons, List.not_mem_nil, or_false] at hc
  rcases hc with rfl | rfl | rfl <;> decide

theorem Reads.skipSpace_intercalate (h : Reads depth v cs) (ts : List (List Char)) (rest : List Char) :
    Json.skipSpace ([','].intercalate (cs :: ts) ++ rest) = [','].intercalate (cs :: ts) ++ rest := by
  cases ts with
  | nil => rw [List.intercalate_singleton, h.skipSpace]
  | cons t ts => rw [List.intercalate_cons_cons, List.append_assoc, List.append_assoc, h.skipSpace]

def afterItem (fuel depth : Nat) (read : List Value) : Step Value → Step Value
  | .error e => .error e
  | .ok (v, rest) =>
    match skipSpace rest with
    | ']' :: r => .ok (.list (v :: read).reverse, r)
    | ',' :: r => items fuel depth (v :: read) (skipSpace r)
    | r => .error (.comma, r.length)

theorem items_succ (fuel depth : Nat) (read : List Value) (cs : List Char) :
    items (fuel + 1) depth read cs = afterItem fuel depth read (element fuel depth cs) := by
  rw [items]
  cases element fuel depth cs <;> rfl

theorem items_written {xs : List Value} {ts : List (List Char)} (h : List.Forall₂ (Reads depth) xs ts)
    (hne : ts ≠ []) (read : List Value) (rest : List Char) (fuel : Nat)
    (hfuel : 2 * ([','].intercalate ts).length + 2 ≤ fuel) :
    Gives (fits.all depth xs) (.list (read.reverse ++ readBack.all xs)) rest
      (items fuel depth read ([','].intercalate ts ++ ']' :: rest)) := by
  induction h generalizing read fuel with
  | nil => exact absurd rfl hne
  | @cons x t xs ts hx hxs ih =>
    obtain ⟨fuel, rfl⟩ : ∃ f, fuel = f + 1 := ⟨fuel - 1, by omega⟩
    rw [items_succ]
    cases hxs with
    | nil =>
      have hclose : isSpace ']' = false := rfl
      rw [List.intercalate_singleton] at hfuel ⊢
      have hends := ends_of_sign (c := ']') (by decide) rest
      refine (hx.element fuel _ hends (by omega)).bind (fun _ => rfl) (.of_eq ?_)
      simp [afterItem, skipSpace_cons hclose, readBack.all]
    | @cons x' t' xs ts hx' hxs =>
      have hcomma : isSpace ',' = false := rfl
      have hpos := hx.length_pos
      have hih := ih (List.cons_ne_nil _ _) (readBack x :: read) fuel
      rw [List.reverse_cons, List.append_assoc] at hih
      rw [List.intercalate_cons_cons, List.length_append, List.length_append,
        List.length_singleton] at hfuel
      rw [List.intercalate_cons_cons, List.append_assoc, List.append_assoc, List.singleton_append]
      refine (hx.element fuel _ (ends_of_sign (by decide) _) (by omega)).bind (fun _ => rfl) ?_
      simp only [afterItem, skipSpace_cons hcomma, hx'.skipSpace_intercalate]
      exact hih (by omega)

/--
A text is the text of an entry of a mapping, and its value reads as what is read back of it.
-/
structure ReadsMember (depth : Nat) (e : Value × Value) (cs : List Char) : Prop where
  exists_body : ∃ s, cs = member e s ∧ Reads depth e.2 s.toList

theorem ReadsMember.skipSpace_intercalate {e : Value × Value} (h : ReadsMember depth e cs)
    (ts : List (List Char)) (rest : List Char) :
    skipSpace ([','].intercalate (cs :: ts) ++ rest) = [','].intercalate (cs :: ts) ++ rest := by
  obtain ⟨body, rfl, -⟩ := h.exists_body
  have hquote : isSpace '"' = false := rfl
  rw [member]
  cases ts with
  | nil => rw [List.intercalate_singleton, List.cons_append, skipSpace_cons hquote]
  | cons t ts => rw [List.intercalate_cons_cons, List.cons_append, List.cons_append, List.cons_append,
      skipSpace_cons hquote]

def afterMember (fuel depth : Nat) (read : Fields) (key : Value) : Step Value → Step Value
  | .error e => .error e
  | .ok (v, rest) =>
    match skipSpace rest with
    | '\x7d' :: r => .ok (.map (Value.insert read key v), r)
    | ',' :: r => members fuel depth (Value.insert read key v) (skipSpace r)
    | r => .error (.comma, r.length)

theorem members_member {e : Value × Value} (h : Reads depth e.2 s.toList) (read : Fields)
    (rest : List Char) (fuel : Nat) :
    members (fuel + 1) depth read (member e s ++ rest) =
      afterMember fuel depth read (.str (keyText e.1)) (element fuel depth (s.toList ++ rest)) := by
  have hlength := length_le_escaped (keyText e.1).toList
  have hcolon : isSpace ':' = false := rfl
  rw [member, List.cons_append, List.append_assoc, members, List.cons_append, List.cons_append,
    textBody_escaped _ (by simp only [List.length_append, List.length_cons]; omega)]
  simp only [skipSpace_cons hcolon, h.skipSpace, List.reverse_nil, List.nil_append, ofParts_chars]
  cases element fuel depth (s.toList ++ rest) <;> rfl

theorem length_le_member (e : Value × Value) (s : String) : s.toList.length ≤ (member e s).length := by
  rw [member]
  simp only [List.length_cons, List.length_append]
  omega

theorem fields_cons (e : Value × Value) (es : Fields) :
    readBack.fields (e :: es) = (.str (keyText e.1), readBack e.2) :: readBack.fields es :=
  rfl

theorem members_written {es : Fields} {ts : List (List Char)}
    (h : List.Forall₂ (ReadsMember depth) es ts) (hne : ts ≠ []) (read : Fields) (rest : List Char)
    (fuel : Nat) (hfuel : 2 * ([','].intercalate ts).length + 2 ≤ fuel) :
    Gives (fits.fields depth es)
      (.map ((readBack.fields es).foldl (fun m e => Value.insert m e.1 e.2) read)) rest
      (members fuel depth read ([','].intercalate ts ++ '\x7d' :: rest)) := by
  induction h generalizing read fuel with
  | nil => exact absurd rfl hne
  | @cons e t es ts he hes ih =>
    obtain ⟨fuel, rfl⟩ : ∃ f, fuel = f + 1 := ⟨fuel - 1, by omega⟩
    obtain ⟨s, rfl, hs⟩ := he.exists_body
    have hlength := length_le_member e s
    cases hes with
    | nil =>
      have hclose : isSpace '\x7d' = false := rfl
      rw [List.intercalate_singleton] at hfuel ⊢
      rw [members_member hs]
      have hends := ends_of_sign (c := '\x7d') (by decide) rest
      refine (hs.element fuel _ hends (by omega)).bind (fun _ => rfl) (.of_eq ?_)
      simp only [afterMember, skipSpace_cons hclose]
      rfl
    | @cons e' t' es ts he' hes =>
      have hcomma : isSpace ',' = false := rfl
      have hih := ih (List.cons_ne_nil _ _) (Value.insert read (.str (keyText e.1)) (readBack e.2)) fuel
      rw [List.intercalate_cons_cons, List.length_append, List.length_append,
        List.length_singleton] at hfuel
      rw [List.intercalate_cons_cons, List.append_assoc, List.append_assoc, List.singleton_append,
        members_member hs, fields_cons e, List.foldl_cons]
      refine (hs.element fuel _ (ends_of_sign (by decide) _) (by omega)).bind (fun _ => rfl) ?_
      simp only [afterMember, skipSpace_cons hcomma, he'.skipSpace_intercalate]
      exact hih (by omega)

theorem element_list {xs : List Value} {ts : List (List Char)}
    (h : List.Forall₂ (Reads (depth - 1)) xs ts) (rest : List Char) (fuel : Nat)
    (hfuel : 2 * ([','].intercalate ts).length + 3 ≤ fuel) :
    Gives (0 < depth && fits.all (depth - 1) xs) (.list (readBack.all xs)) rest
      (element fuel depth ('[' :: ([','].intercalate ts ++ ']' :: rest))) := by
  obtain ⟨fuel, rfl⟩ : ∃ f, fuel = f + 1 := ⟨fuel - 1, by omega⟩
  have hclose : isSpace ']' = false := rfl
  rw [element]
  split
  · next hzero =>
    rw [hzero]
    exact .of_error (by decide)
  · next hdepth =>
    rw [decide_eq_true (Nat.pos_of_ne_zero hdepth), Bool.true_and]
    cases h with
    | nil =>
      rw [List.intercalate_nil, List.nil_append, skipSpace_cons hclose]
      exact .of_eq rfl
    | @cons x t xs ts hx hxs =>
      rw [hx.skipSpace_intercalate]
      split
      · next r heq =>
        obtain ⟨c, more, rfl, -, hc, -⟩ := hx.head
        have hhead := congrArg List.head? heq
        cases ts with
        | nil => exact absurd (by simpa using hhead) hc
        | cons t ts => exact absurd (by simpa using hhead) hc
      · exact items_written (.cons hx hxs) (List.cons_ne_nil _ _) [] rest fuel (by omega)

theorem element_map {es : Fields} {ts : List (List Char)}
    (h : List.Forall₂ (ReadsMember (depth - 1)) es ts) (rest : List Char) (fuel : Nat)
    (hfuel : 2 * ([','].intercalate ts).length + 3 ≤ fuel) :
    Gives (0 < depth && fits.fields (depth - 1) es) (.map (Value.ofEntries (readBack.fields es))) rest
      (element fuel depth ('\x7b' :: ([','].intercalate ts ++ '\x7d' :: rest))) := by
  obtain ⟨fuel, rfl⟩ : ∃ f, fuel = f + 1 := ⟨fuel - 1, by omega⟩
  have hclose : isSpace '\x7d' = false := rfl
  rw [element]
  split
  · next hzero =>
    rw [hzero]
    exact .of_error (by decide)
  · next hdepth =>
    rw [decide_eq_true (Nat.pos_of_ne_zero hdepth), Bool.true_and]
    cases h with
    | nil =>
      rw [List.intercalate_nil, List.nil_append, skipSpace_cons hclose]
      exact .of_eq rfl
    | @cons e t es ts he hes =>
      rw [he.skipSpace_intercalate]
      split
      · next r heq =>
        obtain ⟨body, rfl, -⟩ := he.exists_body
        have hhead := congrArg List.head? heq
        cases ts with
        | nil => simp [member] at hhead
        | cons t ts => simp [member] at hhead
      · exact members_written (.cons he hes) (List.cons_ne_nil _ _) [] rest fuel (by omega)

def Returns (v : Value) : Prop :=
  ∀ (level depth : Nat) (s : String), write? compact level v = some s → Reads depth v s.toList

theorem returns_items {xs : List Value} (h : ∀ x ∈ xs, Returns x) {parts : List String}
    (hparts : write?.all compact level xs = some parts)
    (hfits : fits depth v = (decide (0 < depth) && fits.all (depth - 1) xs))
    (hv : readBack v = .list (readBack.all xs)) :
    Reads depth v (enclose compact level "[" "]" parts).toList where
  head := ⟨'[', _, enclose_toList level "[" "]" parts, by decide⟩
  element fuel rest hrest hfuel := by
    have hreads : List.Forall₂ (Reads (depth - 1)) xs (parts.map String.toList) :=
      List.forall₂_map_right_iff.mpr (forall₂_all (fun x hx s hs => h x hx _ _ s hs) hparts)
    rw [enclose_toList] at hfuel ⊢
    simp only [List.length_append] at hfuel
    rw [List.append_assoc, List.append_assoc, hv, hfits]
    exact element_list hreads rest fuel (by simp at hfuel; omega)

theorem returns_fields {es : Fields} (h : ∀ e ∈ es, Returns e.2) : Returns (.map es) := by
  intro level depth s hs
  obtain ⟨parts, hparts, rfl⟩ := Option.map_eq_some_iff.mp hs
  refine ⟨⟨'\x7b', _, enclose_toList level _ _ parts, by decide⟩, fun fuel rest hrest hfuel => ?_⟩
  have hreads : List.Forall₂ (ReadsMember (depth - 1)) es (parts.map String.toList) :=
    forall₂_fields (fun e he s hs => ⟨s, rfl, h e he _ _ s hs⟩) hparts
  rw [enclose_toList] at hfuel ⊢
  simp only [List.length_append] at hfuel
  rw [List.append_assoc, List.append_assoc]
  exact element_map hreads rest fuel (by simp at hfuel; omega)

theorem reads_of_eq (hfits : fits depth v) {c : Char}
    (hhead : isSpace c = false ∧ c ≠ ']' ∧ c ≠ '\uFEFF')
    (h : ∀ fuel rest, Ends rest → element (fuel + 1) depth (c :: cs ++ rest) = .ok (readBack v, rest)) :
    Reads depth v (c :: cs) where
  head := ⟨c, cs, rfl, hhead⟩
  element fuel rest hrest hfuel := by
    obtain ⟨fuel, rfl⟩ : ∃ f, fuel = f + 1 := by
      rw [List.length_cons] at hfuel
      exact ⟨fuel - 1, by omega⟩
    rw [hfits]
    exact .of_eq (h fuel rest hrest)

theorem reads_text {t : String} (hfits : fits depth v) (hv : readBack v = .str t) :
    Reads depth v (writeText t).toList := by
  rw [writeText_toList]
  refine reads_of_eq hfits (by decide) fun fuel rest _ => ?_
  rw [← writeText_toList, element_text, hv]

def constants : List (List Char × Value) :=
  [(['n', 'u', 'l', 'l'], .null), (['t', 'r', 'u', 'e'], .bool true),
    (['f', 'a', 'l', 's', 'e'], .bool false), (['N', 'a', 'N'], .float .nan),
    (['I', 'n', 'f', 'i', 'n', 'i', 't', 'y'], .float (.infinity false)),
    (['-', 'I', 'n', 'f', 'i', 'n', 'i', 't', 'y'], .float (.infinity true))]

theorem constant?_append (h : (cs, v) ∈ constants) (rest : List Char) :
    constant? (cs ++ rest) = some (v, rest) := by
  simp only [constants, List.mem_cons, List.not_mem_nil, or_false, Prod.mk.injEq] at h
  rcases h with ⟨rfl, rfl⟩ | ⟨rfl, rfl⟩ | ⟨rfl, rfl⟩ | ⟨rfl, rfl⟩ | ⟨rfl, rfl⟩ | ⟨rfl, rfl⟩ <;>
    simp [constant?] <;> rfl

theorem reads_constant (hfits : fits depth v) (h : (cs, readBack v) ∈ constants) : Reads depth v cs := by
  obtain ⟨c, more, rfl, hc, hhead⟩ : ∃ c more, cs = c :: more ∧ c ∉ opening ∧
      isSpace c = false ∧ c ≠ ']' ∧ c ≠ '\uFEFF' := by
    simp only [constants, List.mem_cons, List.not_mem_nil, or_false, Prod.mk.injEq] at h
    rcases h with ⟨rfl, -⟩ | ⟨rfl, -⟩ | ⟨rfl, -⟩ | ⟨rfl, -⟩ | ⟨rfl, -⟩ | ⟨rfl, -⟩ <;>
      exact ⟨_, _, rfl, by decide, by decide⟩
  exact reads_of_eq hfits hhead fun _ rest _ => element_constant hc (constant?_append h rest)

theorem reads_numeral {n : Numeral} (hn : n.Proper)
    (h : ∀ rest, Ends rest → Gives (fits depth v) (readBack v) rest (number (n.text ++ rest))) :
    Reads depth v n.text := by
  obtain ⟨c, cs, hcs, hplain, hhead⟩ : ∃ c cs, n.text = c :: cs ∧ c ∉ opening ∧
      isSpace c = false ∧ c ≠ ']' ∧ c ≠ '\uFEFF' := by
    obtain ⟨c, cs, hcs, hc⟩ := hn.exists_cons
    rw [Numeral.text, hcs]
    cases n.negative with
    | true => exact ⟨'-', _, rfl, by decide, by decide⟩
    | false =>
      have hsigns : ∀ d ∈ opening ++ [' ', '\t', '\n', '\r', ']', '\uFEFF'], ¬ c = d := by
        rintro d hd rfl
        have hall : (opening ++ [' ', '\t', '\n', '\r', ']', '\uFEFF']).all
            (!Text.isAsciiDigit ·) := by
          decide
        simpa [hc] using List.all_eq_true.mp hall c hd
      simp only [opening, List.cons_append, List.nil_append, List.forall_mem_cons] at hsigns
      exact ⟨c, _, rfl, by simp [opening, hsigns], by simp [isSpace, hsigns], by simp [hsigns],
        by simp [hsigns]⟩
  refine ⟨⟨c, cs, hcs, hhead⟩, fun fuel rest hrest hfuel => ?_⟩
  have hconstant := constant?_text hn rest
  have hnumber := h rest hrest
  rw [hcs] at hfuel hconstant hnumber ⊢
  obtain ⟨fuel, rfl⟩ : ∃ f, fuel = f + 1 := by
    rw [List.length_cons] at hfuel
    exact ⟨fuel - 1, by omega⟩
  rw [List.cons_append] at hconstant hnumber ⊢
  rwa [element_number hplain hconstant]

theorem reads_int (n : Int) : Reads depth (.int n) (toString n).toList := by
  rw [toString_int]
  refine reads_numeral (numeralOf_proper n) fun rest hrest => ?_
  have hvalue : (if decide (n < 0) then -(n.natAbs : Int) else n.natAbs) = n := by
    simp only [decide_eq_true_eq]
    split <;> omega
  rw [number_text (numeralOf_proper n) hrest, if_pos (by rfl), readBack, fits]
  simp only [numeralOf, Binary64.ofDecimals_digitsOf, hvalue]
  constructor
  · intro h
    rw [if_neg (Nat.not_lt.mpr (of_decide_eq_true h))]
  · intro h
    rw [if_pos (Nat.lt_of_not_le (by simpa using h))]
    exact ⟨.digits, by decide, _, rfl⟩

theorem reads_float (x : Binary64) : Reads depth (.float x) (writeNumber x).toList := by
  rw [writeNumber]
  split
  · next hnan => exact reads_constant rfl (by simp [readBack, hnan, constants])
  · next hnan =>
    have hback : readBack (.float x) = .float x := by rw [readBack, if_neg hnan]
    split
    · next hinfinite =>
      have hself := Binary64.infinity_self hinfinite
      split
      · next hneg =>
        rw [hneg] at hself
        exact reads_constant rfl (by rw [hback, ← hself]; simp [constants])
      · next hneg =>
        rw [Bool.not_eq_true _ |>.mp hneg] at hself
        exact reads_constant rfl (by rw [hback, ← hself]; simp [constants])
    · next hinfinite =>
      have hx := Binary64.isFinite_of_not hnan hinfinite
      obtain ⟨n, hn, htext⟩ := Binary64.exists_numeral hx
      rw [htext]
      refine reads_numeral hn.proper fun rest hrest => .of_eq ?_
      have hbroken : ¬ (n.places.isEmpty && n.exponent.isNone) := by
        rcases hn.broken with hne | hsome
        · simp [hne]
        · simp [Option.isNone_iff_eq_none, Option.isSome_iff_ne_none.mp hsome]
      rw [number_text hn.proper hrest, if_neg hbroken, hback]
      dsimp only [Fraction.toBinary64]
      rw [hn.negative, hn.value]

theorem returns_plain (hlist : ∀ xs, v ≠ .list xs) (htuple : ∀ xs, v ≠ .tuple xs)
    (hmap : ∀ es, v ≠ .map es) : Returns v := by
  intro level depth s hs
  cases v with
  | null =>
    obtain rfl := Option.some.inj hs
    exact reads_constant rfl (by simp [readBack, constants])
  | bool b =>
    obtain rfl := Option.some.inj hs
    cases b with
    | true => exact reads_constant rfl (by simp [readBack, constants])
    | false => exact reads_constant rfl (by simp [readBack, constants])
  | int n =>
    obtain rfl := Option.some.inj hs
    exact reads_int n
  | float x =>
    obtain rfl := Option.some.inj hs
    exact reads_float x
  | str t =>
    obtain rfl := Option.some.inj hs
    exact reads_text rfl rfl
  | list xs => exact absurd rfl (hlist xs)
  | tuple xs => exact absurd rfl (htuple xs)
  | map es => exact absurd rfl (hmap es)
  | _ =>
    rw [write?, compact, Option.map_some, Option.some.injEq] at hs
    · rw [← hs]
      exact reads_text rfl rfl
    all_goals simp

theorem returns (v : Value) : Returns v := by
  induction v using written_induct with
  | hlist xs h =>
    intro level depth s hs
    obtain ⟨parts, hparts, rfl⟩ := Option.map_eq_some_iff.mp hs
    exact returns_items h hparts rfl rfl
  | htuple xs h =>
    intro level depth s hs
    obtain ⟨parts, hparts, rfl⟩ := Option.map_eq_some_iff.mp hs
    exact returns_items h hparts rfl rfl
  | hmap es h => exact returns_fields h
  | hplain v hlist htuple hmap => exact returns_plain hlist htuple hmap

/--
What is written for a value is read as a whole, where the value is within the limits; else the fault
is that it is not.
-/
theorem read_written (h : write? compact 0 v = some s) :
    (fits depthLimit v → read s = .ok (readBack v)) ∧
      (¬ fits depthLimit v → ∃ e, read s = .error e ∧ e.fault ∈ limits) := by
  have hreads := returns v 0 depthLimit s h
  obtain ⟨hread, hrefused⟩ := hreads.element (2 * s.toList.length + 2) [] (by simp [Ends]) (by omega)
  have hspace := hreads.skipSpace []
  obtain ⟨c, cs, hcs, -, -, hmark⟩ := hreads.head
  rw [List.append_nil] at hread hrefused hspace
  rw [read]
  dsimp only
  split
  · next heq =>
    rw [hcs] at heq
    exact absurd (List.cons.inj heq).1 hmark
  · rw [hspace]
    constructor
    · intro hfits
      rw [hread hfits]
      rfl
    · intro hfits
      obtain ⟨fault, hfault, left, heq⟩ := hrefused hfits
      rw [heq]
      exact ⟨_, rfl, hfault⟩

end Values

end Polyglot.Json
