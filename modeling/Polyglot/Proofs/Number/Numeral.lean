import Polyglot.Number.Reading
import Polyglot.Proofs.Number.Shortest
import Polyglot.Proofs.Text.Search

/-!
Numerals: how numbers are written, and that the text of a number is a numeral that reads as the number.
-/

namespace Polyglot

namespace Number

/--
The signs that may stand in front of a number or of an exponent.
-/
def signs : List (List Char) :=
  [[], ['-'], ['+']]

/--
An exponent as it may be written: its mark, and digits with a sign or without.
-/
structure Exponent where
  mark : Char
  sign : List Char
  digits : List Char

namespace Exponent

def text (e : Exponent) : List Char :=
  e.mark :: (e.sign ++ e.digits)

def value (e : Exponent) : Int :=
  if e.sign = ['-'] then -(Text.ofDecimals e.digits : Int) else Text.ofDecimals e.digits

structure Legal (e : Exponent) : Prop where
  mark : e.mark = 'e' ∨ e.mark = 'E'
  sign : e.sign ∈ signs
  nonempty : e.digits ≠ []
  digits : ∀ c ∈ e.digits, Text.isDecimal c

theorem Legal.all_digits {e : Exponent} (h : e.Legal) : e.digits.all Text.isDecimal :=
  List.all_eq_true.mpr h.digits

end Exponent

/--
A number as it may be written, in digits of any digit system: its digits in front of the point, those behind
it if there is a point, and the exponent if it has one.
-/
structure Spelling where
  sign : List Char
  whole : List Char
  places : Option (List Char)
  exponent : Option Exponent

namespace Spelling

variable {w : Spelling}

/--
What stands behind the digits in front of the point.
-/
def tail (w : Spelling) : List Char :=
  w.places.elim [] ('.' :: ·) ++ w.exponent.elim [] Exponent.text

def text (w : Spelling) : List Char :=
  w.sign ++ (w.whole ++ w.tail)

def fraction (w : Spelling) : Fraction :=
  ⟨w.sign == ['-'], w.whole ++ w.places.getD [],
    w.exponent.elim 0 Exponent.value - (w.places.getD []).length⟩

/--
There is a digit in front of the point or behind it.
-/
structure Legal (w : Spelling) : Prop where
  sign : w.sign ∈ signs
  whole : ∀ c ∈ w.whole, Text.isDecimal c
  places : ∀ ps ∈ w.places, ∀ c ∈ ps, Text.isDecimal c
  nonempty : w.whole ++ w.places.getD [] ≠ []
  exponent : ∀ e ∈ w.exponent, e.Legal

end Spelling

section Signs

variable {sign cs : List Char}

theorem takeSign_append (hsign : sign ∈ signs) (hcs : ∀ c ∈ cs.head?, c ≠ '-' ∧ c ≠ '+') :
    takeSign (sign ++ cs) = (sign == ['-'], cs) := by
  simp only [signs, List.mem_cons, List.not_mem_nil, or_false] at hsign
  rcases hsign with rfl | rfl | rfl
  · rw [List.nil_append, takeSign.eq_def]
    split
    · exact absurd rfl (hcs '-' rfl).1
    · exact absurd rfl (hcs '+' rfl).2
    · rfl
  · rfl
  · rfl

theorem ne_sign_of_isDecimal {c : Char} (h : Text.isDecimal c) : c ≠ '-' ∧ c ≠ '+' := by
  constructor
  · rintro rfl
    exact absurd h (by decide)
  · rintro rfl
    exact absurd h (by decide)

theorem takeSign_digits (hsign : sign ∈ signs) (hcs : ∀ c ∈ cs, Text.isDecimal c) :
    takeSign (sign ++ cs) = (sign == ['-'], cs) :=
  takeSign_append hsign fun c hc => ne_sign_of_isDecimal (hcs c (List.mem_of_mem_head? hc))

end Signs

namespace Spelling

variable {w : Spelling}

theorem Legal.head_exponent (h : w.Legal) {p : Char → Bool} (hlow : p 'e' = false) (hhigh : p 'E' = false) :
    ∀ c ∈ (w.exponent.elim [] Exponent.text).head?, p c = false := by
  cases hexponent : w.exponent with
  | none => simp
  | some e =>
    rcases (h.exponent e hexponent).mark with hmark | hmark <;> simpa [Exponent.text, hmark]

theorem Legal.head_tail (h : w.Legal) {p : Char → Bool} (hpoint : p '.' = false) (hlow : p 'e' = false)
    (hhigh : p 'E' = false) : ∀ c ∈ w.tail.head?, p c = false := by
  rw [tail]
  cases w.places with
  | none => exact h.head_exponent hlow hhigh
  | some ps => simpa using hpoint

theorem Legal.takeSign_text (h : w.Legal) : takeSign w.text = (w.sign == ['-'], w.whole ++ w.tail) := by
  refine takeSign_append h.sign fun c hc => ?_
  cases hwhole : w.whole with
  | nil =>
    rw [hwhole, List.nil_append] at hc
    have hminus := h.head_tail (p := (· == '-')) rfl rfl rfl c hc
    have hplus := h.head_tail (p := (· == '+')) rfl rfl rfl c hc
    exact ⟨by simpa using hminus, by simpa using hplus⟩
  | cons d ds =>
    rw [hwhole, List.cons_append, List.head?_cons, Option.mem_some_iff] at hc
    exact ne_sign_of_isDecimal (h.whole c (by simp [hwhole, hc]))

theorem Legal.fraction_text (h : w.Legal) : fraction? w.text = some w.fraction := by
  obtain ⟨hwhole, htail⟩ := Text.takeWhile_stop h.whole
    (h.head_tail (p := Text.isDecimal) (by decide) (by decide) (by decide))
  have hbehind := h.head_exponent (p := Text.isDecimal) (by decide) (by decide)
  have hnonempty := h.nonempty
  have hlegal := h.exponent
  rw [fraction?, h.takeSign_text, fraction]
  dsimp only
  rw [hwhole, htail, tail]
  cases hplaces : w.places with
  | none =>
    rw [hplaces] at hnonempty
    have hdigits : w.whole ≠ [] := by simpa using hnonempty
    cases hexponent : w.exponent with
    | none => simp [hdigits]
    | some e =>
      have he := hlegal e hexponent
      rcases he.mark with hmark | hmark <;>
        simp [Exponent.text, Exponent.value, hmark, hdigits, takeSign_digits he.sign he.digits,
          he.nonempty, he.all_digits]
  | some ps =>
    obtain ⟨htake, hdrop⟩ := Text.takeWhile_stop (h.places ps hplaces) hbehind
    rw [hplaces] at hnonempty
    have hdigits : ¬ (w.whole.isEmpty && ps.isEmpty) := by simpa using hnonempty
    simp only [Option.elim_some, List.cons_append, Option.getD_some, htake, hdrop, if_neg hdigits]
    cases hexponent : w.exponent with
    | none => simp
    | some e =>
      have he := hlegal e hexponent
      rcases he.mark with hmark | hmark <;>
        simp [Exponent.text, Exponent.value, hmark, takeSign_digits he.sign he.digits, he.nonempty,
          he.all_digits]

end Spelling

/--
A number in writing: its digits in front of the point and behind it, and the exponent if it has one.
-/
structure Numeral where
  negative : Bool
  whole : List Char
  places : List Char
  exponent : Option (Bool × List Char)

namespace Numeral

def sign (negative : Bool) : List Char :=
  if negative then ['-'] else []

def pointed (places : List Char) : List Char :=
  if places.isEmpty then [] else '.' :: places

def powered : Option (Bool × List Char) → List Char
  | none => []
  | some (down, ds) => 'e' :: (if down then '-' else '+') :: ds

def text (n : Numeral) : List Char :=
  sign n.negative ++ (n.whole ++ (pointed n.places ++ powered n.exponent))

def power (n : Numeral) : Int :=
  (match n.exponent with
    | none => 0
    | some (down, ds) => if down then -(Text.ofDecimals ds : Int) else Text.ofDecimals ds) -
    n.places.length

/--
There are digits where there have to be some, and no zero stands in front of other digits.
-/
structure Proper (n : Numeral) : Prop where
  whole : ∀ c ∈ n.whole, Text.isAsciiDigit c
  lead : n.whole = ['0'] ∨ n.whole ≠ [] ∧ n.whole.head? ≠ some '0'
  places : ∀ c ∈ n.places, Text.isAsciiDigit c
  exponent : ∀ e ∈ n.exponent, e.2 ≠ [] ∧ ∀ c ∈ e.2, Text.isAsciiDigit c

def Broken (n : Numeral) : Prop :=
  n.places ≠ [] ∨ n.exponent.isSome

variable {n : Numeral}

theorem Proper.exists_cons (h : n.Proper) : ∃ c cs, n.whole = c :: cs ∧ Text.isAsciiDigit c := by
  have hne : n.whole ≠ [] := by
    rcases h.lead with heq | ⟨hne, -⟩
    · rw [heq]
      exact List.cons_ne_nil _ _
    · exact hne
  obtain ⟨c, cs, hcs⟩ := List.exists_cons_of_ne_nil hne
  exact ⟨c, cs, hcs, h.whole c (by rw [hcs]; exact List.mem_cons_self)⟩

theorem pointed_eq {places : List Char} (h : places ≠ []) : pointed places = '.' :: places := by
  cases places with
  | nil => exact absurd rfl h
  | cons c places => rfl

theorem pointed_cons (c : Char) (places : List Char) :
    pointed (c :: places) = '.' :: c :: places :=
  rfl

def spelling (n : Numeral) : Spelling :=
  ⟨sign n.negative, n.whole, if n.places.isEmpty then none else some n.places,
    n.exponent.map fun (down, ds) => ⟨'e', [if down then '-' else '+'], ds⟩⟩

theorem spelling_text (n : Numeral) : n.spelling.text = n.text := by
  obtain ⟨negative, whole, places, exponent⟩ := n
  rcases places with - | ⟨c, places⟩ <;> rcases exponent with - | ⟨down, ds⟩ <;>
    simp [Spelling.text, Spelling.tail, Exponent.text, spelling, text, pointed, powered]

theorem Proper.spelling (h : n.Proper) : n.spelling.Legal where
  sign := by
    cases hneg : n.negative <;> simp [Numeral.spelling, Numeral.sign, hneg, signs]
  whole c hc := Text.isDecimal_of_isAsciiDigit (h.whole c hc)
  places := by
    intro ps hps c hc
    simp only [Numeral.spelling] at hps
    split at hps
    · cases hps
    · cases hps
      exact Text.isDecimal_of_isAsciiDigit (h.places c hc)
  nonempty := by
    obtain ⟨c, cs, hcs, -⟩ := h.exists_cons
    simp [Numeral.spelling, hcs]
  exponent := by
    intro e he
    obtain ⟨⟨down, ds⟩, hds, rfl⟩ := Option.map_eq_some_iff.mp he
    obtain ⟨hne, hdigits⟩ := h.exponent _ hds
    refine ⟨.inl rfl, ?_, hne, fun c hc => Text.isDecimal_of_isAsciiDigit (hdigits c hc)⟩
    cases down <;> simp [signs]

theorem fraction?_text (h : n.Proper) :
    fraction? n.text = some ⟨n.negative, n.whole ++ n.places, n.power⟩ := by
  rw [← spelling_text, h.spelling.fraction_text]
  obtain ⟨negative, whole, places, exponent⟩ := n
  cases negative <;> rcases places with - | ⟨c, places⟩ <;> rcases exponent with - | ⟨down, ds⟩ <;>
    simp [Spelling.fraction, Exponent.value, Numeral.spelling, sign, power]

end Numeral

end Number

namespace Number.Numeral

/--
A numeral that spells a number as a floating-point number.
-/
structure Spells (n : Numeral) (x : Binary64) : Prop where
  proper : n.Proper
  broken : n.Broken
  negative : n.negative = x.isNegative
  value : Binary64.ofDecimal x.isNegative (Text.ofDecimals (n.whole ++ n.places)) n.power = x

end Number.Numeral

namespace Binary64

open Number

variable {x : Binary64} {ds : List Char} {k : Int}

theorem Spells.exists_cons (h : Spells x ds k) : ∃ d rest, ds = d :: rest ∧ d ≠ '0' := by
  obtain ⟨d, rest, hds⟩ := List.exists_cons_of_ne_nil h.nonempty
  have hhead := h.head
  rw [hds] at hhead
  exact ⟨d, rest, hds, by simpa using hhead⟩

theorem Spells.positional_below (h : Spells x ds k) (hk : k < 0) :
    Numeral.Spells ⟨x.isNegative, ['0'], List.replicate ((-k).toNat - 1) '0' ++ ds, none⟩ x where
  proper := {
    whole := by simp; rfl
    lead := .inl rfl
    places := by
      simp only [List.forall_mem_append]
      exact ⟨fun c => Text.isAsciiDigit_of_mem_replicate, h.digits⟩
    exponent := by simp }
  broken := .inl (by simp [h.nonempty])
  negative := rfl
  value := by
    have hpower : 0 - (((List.replicate ((-k).toNat - 1) '0' ++ ds).length : Nat) : Int) =
        k + 1 - ds.length := by
      rw [List.length_append, List.length_replicate]
      omega
    rw [Numeral.power, ← List.append_assoc, show ['0'] = List.replicate 1 '0' from rfl,
      List.replicate_append_replicate, Text.ofDecimals_zeros_append]
    dsimp only
    rw [hpower, h.value]

theorem Spells.positional_round (h : Spells x ds k) (hk : 0 ≤ k) (hk' : k < 16)
    (hlength : ds.length ≤ k.toNat + 1) :
    Numeral.Spells ⟨x.isNegative, ds ++ List.replicate (k.toNat + 1 - ds.length) '0', ['0'], none⟩ x where
  proper := {
    whole := by
      simp only [List.forall_mem_append]
      exact ⟨h.digits, fun c => Text.isAsciiDigit_of_mem_replicate⟩
    lead := by
      obtain ⟨d, rest, rfl, hd⟩ := h.exists_cons
      exact .inr ⟨by simp, by simpa using hd⟩
    places := by simp; rfl
    exponent := by simp }
  broken := .inl (by simp)
  negative := rfl
  value := by
    have hpower : 0 - ((List.replicate 1 '0').length : Int) =
        k + 1 - ds.length - ((k.toNat + 1 - ds.length + 1 : Nat) : Int) := by
      rw [List.length_replicate]
      omega
    rw [Numeral.power, List.append_assoc, show ['0'] = List.replicate 1 '0' from rfl,
      List.replicate_append_replicate, Text.ofDecimals_append_zeros h.digits]
    dsimp only
    rw [hpower, ofDecimal_shift _ (by omega) (by omega), h.value]

theorem Spells.positional_inside (h : Spells x ds k) (hk : 0 ≤ k) (hlength : k.toNat + 1 < ds.length) :
    Numeral.Spells ⟨x.isNegative, ds.take (k.toNat + 1), ds.drop (k.toNat + 1), none⟩ x where
  proper := {
    whole := fun c hc => h.digits c (List.mem_of_mem_take hc)
    lead := by
      obtain ⟨d, rest, rfl, hd⟩ := h.exists_cons
      exact .inr ⟨by simp, by simpa using hd⟩
    places := fun c hc => h.digits c (List.mem_of_mem_drop hc)
    exponent := by simp }
  broken := .inl (by simp; omega)
  negative := rfl
  value := by
    have hpower : 0 - ((ds.drop (k.toNat + 1)).length : Int) = k + 1 - ds.length := by
      rw [List.length_drop]
      omega
    rw [Numeral.power, List.take_append_drop]
    dsimp only
    rw [hpower, h.value]

def twoDigits (n : Nat) : List Char :=
  if (digitsOf n).length < 2 then '0' :: digitsOf n else digitsOf n

theorem isAsciiDigit_of_mem_twoDigits {n : Nat} {c : Char} (h : c ∈ twoDigits n) :
    Text.isAsciiDigit c := by
  rw [twoDigits] at h
  split at h
  · rcases List.mem_cons.mp h with rfl | h
    · rfl
    · exact isAsciiDigit_of_mem_digitsOf h
  · exact isAsciiDigit_of_mem_digitsOf h

theorem ofDecimals_twoDigits (n : Nat) : Text.ofDecimals (twoDigits n) = n := by
  rw [twoDigits]
  split
  · exact (Text.ofDecimals_zeros_append 1 (digitsOf n)).trans (ofDecimals_digitsOf n)
  · exact ofDecimals_digitsOf n

theorem twoDigits_ne_nil (n : Nat) : twoDigits n ≠ [] := by
  rw [twoDigits]
  split
  · exact List.cons_ne_nil _ _
  · exact digitsOf_ne_nil n

theorem Spells.scientific (h : Spells x ds k) :
    Numeral.Spells ⟨x.isNegative, ds.take 1, ds.drop 1, some (k < 0, twoDigits k.natAbs)⟩ x where
  proper := {
    whole := fun c hc => h.digits c (List.mem_of_mem_take hc)
    lead := by
      obtain ⟨d, rest, rfl, hd⟩ := h.exists_cons
      exact .inr ⟨by simp, by simpa using hd⟩
    places := fun c hc => h.digits c (List.mem_of_mem_drop hc)
    exponent := by
      rintro _ ⟨⟩
      exact ⟨twoDigits_ne_nil _, fun c => isAsciiDigit_of_mem_twoDigits⟩ }
  broken := .inr rfl
  negative := rfl
  value := by
    have hlength : 0 < ds.length := List.length_pos_of_ne_nil h.nonempty
    have hpower : (if k < 0 then -(k.natAbs : Int) else k.natAbs) - ((ds.drop 1).length : Int) =
        k + 1 - ds.length := by
      rw [List.length_drop]
      split <;> omega
    rw [Numeral.power, List.take_append_drop]
    simp only [ofDecimals_twoDigits, decide_eq_true_eq]
    rw [hpower, h.value]

theorem zero_spells (h : x.isZero) : Numeral.Spells ⟨x.isNegative, ['0'], ['0'], none⟩ x where
  proper := {
    whole := by simp; rfl
    lead := .inl rfl
    places := by simp; rfl
    exponent := by simp }
  broken := .inl (by simp)
  negative := rfl
  value := by
    have hself := signed_self x
    simp only [isZero, Bool.and_eq_true, beq_iff_eq] at h
    rw [bits_mod, h.1, h.2] at hself
    exact hself

theorem isFinite_of_not (hnan : ¬ x.isNaN) (hinfinite : ¬ x.isInfinite) : x.isFinite := by
  have hlt : x.exponentField < 2048 := Nat.mod_lt _ (by decide)
  simp only [isNaN, isInfinite, isFinite, Bool.and_eq_true, beq_iff_eq, bne_iff_ne,
    decide_eq_true_eq] at *
  omega

theorem infinity_self (h : x.isInfinite) : infinity x.isNegative = x := by
  have hself := signed_self x
  simp only [isInfinite, Bool.and_eq_true, beq_iff_eq] at h
  rw [bits_mod, h.1, h.2] at hself
  exact hself

theorem not_of_isFinite (hx : x.isFinite) : ¬ x.isNaN ∧ ¬ x.isInfinite := by
  have hfield := field_lt hx
  simp only [isNaN, isInfinite, Bool.and_eq_true, beq_iff_eq]
  omega

theorem exists_numeral (hx : x.isFinite) : ∃ n : Numeral, n.Spells x ∧ x.text.toList = n.text := by
  obtain ⟨hnan, hinfinite⟩ := not_of_isFinite hx
  have hsign : (if x.isNegative then "-" else "").toList = Numeral.sign x.isNegative := by
    cases x.isNegative <;> rfl
  rw [text, if_neg hnan]
  dsimp only
  rw [if_neg hinfinite]
  split
  · next hzero =>
    refine ⟨_, zero_spells hzero, ?_⟩
    rw [String.toList_append, hsign]
    rfl
  · next hzero =>
    have h := spells_shortest hx hzero
    rw [String.toList_append, hsign, String.toList_ofList]
    generalize x.shortest.digits = ds at *
    generalize x.shortest.power = k at *
    split
    · next hk =>
      rw [text.positional]
      split
      · next hneg =>
        refine ⟨_, h.positional_below hneg, ?_⟩
        rw [Numeral.text, Numeral.pointed_eq (by simp [h.nonempty]), Numeral.powered]
        simp
      · next hneg =>
        dsimp only
        split
        · next hlength =>
          refine ⟨_, h.positional_round (by omega) hk.2 hlength, ?_⟩
          rw [Numeral.text, Numeral.pointed_cons, Numeral.powered]
          simp
        · next hlength =>
          refine ⟨_, h.positional_inside (by omega) (by omega), ?_⟩
          rw [Numeral.text, Numeral.pointed_eq (by simp; omega), Numeral.powered]
          simp
    · refine ⟨_, h.scientific, ?_⟩
      obtain ⟨d, rest, rfl, -⟩ := h.exists_cons
      cases rest with
      | nil => simp [text.scientific, Numeral.text, Numeral.pointed, Numeral.powered, twoDigits]
      | cons c rest =>
        simp [text.scientific, Numeral.text, Numeral.pointed, Numeral.powered, twoDigits]

end Binary64

end Polyglot
