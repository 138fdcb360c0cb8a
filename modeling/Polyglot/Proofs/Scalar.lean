import Polyglot.Proofs.Number.Numeral
import Polyglot.Scalar

/-!
Plain texts that are read as scalars. A code, which is a number with a zero in front of other digits, stays
the text that it is as long as it has neither a point nor an exponent; with one of them it is read as a
floating-point number. What is read as an integer is written with the digits of that integer, in any digit
systems, and only zeros of other systems than the ASCII one may stand in front of them.
-/

namespace Polyglot.Scalar

open Number Binary64

variable {text cs digits sign : List Char} {n : Int}

theorem not_isSign_of_isDecimal {c : Char} (h : Text.isDecimal c) : isSign c = false := by
  have hne := ne_sign_of_isDecimal h
  simp [isSign, hne.1, hne.2]

theorem dropWhile_sign (hsign : sign ∈ signs) (hdigits : ∀ c ∈ digits, Text.isDecimal c) :
    (sign ++ digits).dropWhile isSign = digits := by
  have hall : ∀ c ∈ sign, isSign c := by
    simp only [signs, List.mem_cons, List.not_mem_nil, or_false] at hsign
    rcases hsign with rfl | rfl | rfl <;> simp [isSign]
  exact (Text.takeWhile_stop hall fun c hc =>
    not_isSign_of_isDecimal (hdigits c (List.mem_of_mem_head? hc))).2

theorem integerDigits_eq_some : integerDigits? cs = some digits ↔
    ∃ sign ∈ signs, cs = sign ++ digits ∧ digits ≠ [] ∧ ∀ c ∈ digits, Text.isDecimal c := by
  have hcut : integerDigits? cs = if !(takeSign cs).2.isEmpty && (takeSign cs).2.all Text.isDecimal then
      some (takeSign cs).2 else none := rfl
  rw [hcut, Option.ite_none_right_eq_some, Option.some.injEq]
  simp only [Bool.and_eq_true, Bool.not_eq_true', List.isEmpty_eq_false_iff, List.all_eq_true]
  constructor
  · rintro ⟨hall, rfl⟩
    have hsplit : ∃ sign ∈ signs, cs = sign ++ (takeSign cs).2 := by
      rw [takeSign.eq_def]
      split
      · exact ⟨['-'], by simp [signs], rfl⟩
      · exact ⟨['+'], by simp [signs], rfl⟩
      · exact ⟨[], by simp [signs], rfl⟩
    obtain ⟨sign, hsign, hcs⟩ := hsplit
    exact ⟨sign, hsign, hcs, hall⟩
  · rintro ⟨sign, hsign, rfl, hall⟩
    rw [takeSign_digits hsign hall.2]
    exact ⟨hall, rfl⟩

/--
A number with a zero in front of other digits.
-/
def IsCode (w : Spelling) : Prop :=
  ∃ more, w.whole = '0' :: more ∧ more ≠ []

/--
A text spells an integer with its digits, in any digit systems, and not with too many. Zeros may stand in front
of them, but not beginning with the ASCII one.
-/
inductive SpellsInt (n : Int) : List Char → Prop where
  | mk {sign zeros digits : List Char} (hsign : sign ∈ signs) (hdown : sign = ['-'] → n ≤ 0)
      (hup : sign ≠ ['-'] → 0 ≤ n) (hzeros : ∀ c ∈ zeros, Text.decimalValue? c = some 0)
      (hlead : zeros.head? ≠ some '0')
      (hdigits : SameDigits n.natAbs digits)
      (hlong : (zeros ++ digits).length ≤ digitLimit) : SpellsInt n (sign ++ (zeros ++ digits))

section Digits

def signed (sign digits : List Char) : Int :=
  if sign = ['-'] then -(Text.ofDecimals digits : Int) else Text.ofDecimals digits

theorem read_of_digits (hsign : sign ∈ signs) (htext : Text.trim text = sign ++ digits)
    (hne : digits ≠ []) (hdigits : ∀ c ∈ digits, Text.isDecimal c) :
    read? text = if isCode digits then some (.str (String.ofList (Text.trim text)))
      else if digits.length > digitLimit then none else some (.int (signed sign digits)) := by
  have hint : integerDigits? (Text.trim text) = some digits :=
    integerDigits_eq_some.mpr ⟨sign, hsign, htext, hne, hdigits⟩
  have hdrop : (Text.trim text).dropWhile isSign = digits := by
    rw [htext, dropWhile_sign hsign hdigits]
  have htake : (takeSign (Text.trim text)).1 = (sign == ['-']) := by
    rw [htext, takeSign_digits hsign hdigits]
  rw [read?]
  dsimp only
  rw [hint]
  dsimp only
  rw [hdrop, htake]
  simp only [signed, beq_iff_eq]

end Digits

section Codes

variable {w : Spelling}

theorem not_isDecimal_of_tail (h : w.Legal) (htail : w.tail ≠ []) :
    ¬ ∀ c ∈ w.whole ++ w.tail, Text.isDecimal c := by
  obtain ⟨c, cs, hcs⟩ := List.exists_cons_of_ne_nil htail
  intro hall
  have hc := h.head_tail (p := Text.isDecimal) (by decide) (by decide) (by decide) c (by rw [hcs]; rfl)
  rw [hall c (by simp [hcs])] at hc
  cases hc

theorem integerDigits_of_tail (h : w.Legal) (htail : w.tail ≠ []) : integerDigits? w.text = none := by
  rw [Option.eq_none_iff_forall_ne_some]
  intro digits hdigits
  obtain ⟨sign, hsign, hcs, -, hall⟩ := integerDigits_eq_some.mp hdigits
  have htake := h.takeSign_text
  rw [hcs, takeSign_digits hsign hall, Prod.mk.injEq] at htake
  exact not_isDecimal_of_tail h htail (htake.2 ▸ hall)

theorem read_of_isCode (h : w.Legal) (hcode : IsCode w) (htext : Text.trim text = w.text) :
    read? text = some (if w.tail = [] then .str (String.ofList w.text) else .float w.fraction.toBinary64) := by
  obtain ⟨more, hwhole, hmore⟩ := hcode
  by_cases htail : w.tail = []
  · have hw : w.text = w.sign ++ w.whole := by rw [Spelling.text, htail, List.append_nil]
    have hcode : isCode w.whole := by
      rw [hwhole]
      simpa [isCode, List.length_pos_iff] using hmore
    rw [read_of_digits h.sign (htext.trans hw) (by simp [hwhole]) h.whole, if_pos hcode, if_pos htail, htext]
  · rw [read?]
    dsimp only
    rw [htext, integerDigits_of_tail h htail, h.fraction_text, if_neg htail]

end Codes

section Integers

theorem read_ne_int (h : integerDigits? (Text.trim text) = none) (n : Int) :
    read? text ≠ some (.int n) := by
  rw [read?]
  dsimp only
  rw [h]
  dsimp only
  split
  · nofun
  · split <;> nofun

theorem read_eq_int : read? text = some (.int n) ↔ ∃ sign ∈ signs, ∃ digits,
    Text.trim text = sign ++ digits ∧ digits ≠ [] ∧ (∀ c ∈ digits, Text.isDecimal c) ∧
      isCode digits = false ∧ digits.length ≤ digitLimit ∧ n = signed sign digits := by
  constructor
  · intro h
    cases hint : integerDigits? (Text.trim text) with
    | none => exact absurd h (read_ne_int hint n)
    | some digits =>
      obtain ⟨sign, hsign, htext, hne, hdigits⟩ := integerDigits_eq_some.mp hint
      rw [read_of_digits hsign htext hne hdigits] at h
      split at h
      · cases h
      · next hcode =>
        split at h
        · cases h
        · next hlong =>
          cases h
          exact ⟨sign, hsign, digits, htext, hne, hdigits, by simpa using hcode,
            Nat.le_of_not_lt hlong, rfl⟩
  · rintro ⟨sign, hsign, digits, htext, hne, hdigits, hcode, hlong, rfl⟩
    rw [read_of_digits hsign htext hne hdigits, hcode, if_neg Bool.false_ne_true,
      if_neg (Nat.not_lt.mpr hlong)]

theorem natAbs_signed (sign digits : List Char) :
    (signed sign digits).natAbs = Text.ofDecimals digits := by
  rw [signed]
  split <;> simp

theorem signed_eq (hdown : sign = ['-'] → n ≤ 0) (hup : sign ≠ ['-'] → 0 ≤ n)
    (h : Text.ofDecimals digits = n.natAbs) : signed sign digits = n := by
  rw [signed, h]
  split
  · next hsign =>
    have := hdown hsign
    omega
  · next hsign =>
    have := hup hsign
    omega

theorem isCode_of_sameDigits {k : Nat} (h : SameDigits k digits) : isCode digits = false := by
  by_contra hcode
  simp only [isCode, Bool.and_eq_true, decide_eq_true_eq, beq_iff_eq, Bool.not_eq_false] at hcode
  exact h.head_ne_zero (h.pos_of_length hcode.1) hcode.2

theorem read_eq_int_iff_spells : read? text = some (.int n) ↔ SpellsInt n (Text.trim text) := by
  rw [read_eq_int]
  constructor
  · rintro ⟨sign, hsign, digits, htext, hne, hdecimal, hcode, hlong, rfl⟩
    obtain ⟨zeros, digits, rfl, hzeros, hdigits⟩ := exists_sameDigits hne hdecimal
    rw [htext]
    refine .mk hsign ?_ ?_ hzeros ?_ (by rwa [natAbs_signed]) hlong
    · intro hdown
      rw [signed, if_pos hdown]
      omega
    · intro hup
      rw [signed, if_neg hup]
      omega
    · intro hhead
      obtain ⟨more, rfl⟩ := List.head?_eq_some_iff.mp hhead
      have hpos := List.length_pos_iff.mpr hdigits.ne_nil
      simp only [isCode, List.cons_append, List.length_cons, List.length_append, List.head?_cons,
        BEq.rfl, Bool.and_true, decide_eq_false_iff_not] at hcode
      omega
  · generalize Text.trim text = s
    rintro ⟨hsign, hdown, hup, hzeros, hlead, hdigits, hlong⟩
    next sign zeros digits =>
    have hdecimal : ∀ c ∈ zeros ++ digits, Text.isDecimal c := by
      rw [List.forall_mem_append]
      refine ⟨fun c hc => ?_, fun c => hdigits.isDecimal⟩
      rw [Text.isDecimal, hzeros c hc]
      rfl
    have hvalue : Text.ofDecimals (zeros ++ digits) = n.natAbs := by
      rw [Text.ofDecimals_append_of_zero hzeros, hdigits.ofDecimals_eq]
    have hcode : isCode (zeros ++ digits) = false := by
      cases zeros with
      | nil => exact isCode_of_sameDigits hdigits
      | cons z zeros =>
        have hz : z ≠ '0' := fun hz => hlead (by rw [hz]; rfl)
        simp [isCode, hz]
    exact ⟨sign, hsign, zeros ++ digits, rfl, by simp [hdigits.ne_nil], hdecimal, hcode, hlong,
      (signed_eq hdown hup hvalue).symm⟩

theorem SpellsInt.ascii (h : SpellsInt n cs) (hascii : ∀ c ∈ cs, c.toNat < 128) :
    ∃ sign ∈ signs, cs = sign ++ digitsOf n.natAbs := by
  obtain ⟨hsign, -, -, hzeros, hlead, hdigits, -⟩ := h
  next sign zeros digits =>
  simp only [List.forall_mem_append] at hascii
  obtain ⟨-, hzeroAscii, hdigitAscii⟩ := hascii
  obtain rfl : zeros = [] := by
    cases zeros with
    | nil => rfl
    | cons z zeros =>
      have hz := hzeros z List.mem_cons_self
      have hdigit := Text.isAsciiDigit_of_decimalValue (hzeroAscii z List.mem_cons_self) hz
      have hzero : z = '0' := Text.eq_of_decimalValue hdigit (by decide) hz
      exact absurd (by rw [hzero]; rfl) hlead
  have hall : ∀ c ∈ digits, Text.isAsciiDigit c := by
    intro c hc
    obtain ⟨v, hv⟩ := Option.isSome_iff_exists.mp (hdigits.isDecimal hc)
    exact Text.isAsciiDigit_of_decimalValue (hdigitAscii c hc) hv
  exact ⟨sign, hsign, by rw [List.nil_append, hdigits.eq_digitsOf hall]⟩

/--
A code is read as the text that it is if it has neither a point nor an exponent, and as the number that it
spells if it has one. The texts that are read as an integer are exactly those that spell it; in ASCII they
are its decimal digits with or without a sign.
-/
theorem read_codes (text : List Char) :
    (∀ w : Spelling, w.Legal → IsCode w → Text.trim text = w.text → read? text =
      some (if w.tail = [] then .str (String.ofList w.text) else .float w.fraction.toBinary64)) ∧
    ∀ n, (read? text = some (.int n) ↔ SpellsInt n (Text.trim text)) ∧
      ((∀ c ∈ Text.trim text, c.toNat < 128) → read? text = some (.int n) →
        ∃ sign ∈ signs, Text.trim text = sign ++ digitsOf n.natAbs) :=
  ⟨fun _ hw hcode htext => read_of_isCode hw hcode htext, fun _ => ⟨read_eq_int_iff_spells,
    fun hascii hread => (read_eq_int_iff_spells.mp hread).ascii hascii⟩⟩

/--
A code between blanks, one with a point, an integer behind a zero of another digit system and one in ASCII.
-/
theorem codes_read : read? " -007\n".toList = some (.str "-007") ∧
    read? "+007.5".toList = some (.float (Fraction.toBinary64 ⟨false, "0075".toList, -1⟩)) ∧
    read? "٠12".toList = some (.int 12) ∧ SpellsInt 12 "٠12".toList ∧
    read? " -12".toList = some (.int (-12)) ∧
    ∃ sign ∈ signs, Text.trim " -12".toList = sign ++ digitsOf (-12 : Int).natAbs := by
  have hdecimal {cs : List Char} (h : cs.all Text.isDecimal) : ∀ c ∈ cs, Text.isDecimal c :=
    List.all_eq_true.mp h
  have hcode : (⟨['-'], "007".toList, none, none⟩ : Spelling).Legal :=
    ⟨by simp [signs], hdecimal rfl, by simp, by decide, by simp⟩
  have hpointed : (⟨['+'], "007".toList, some "5".toList, none⟩ : Spelling).Legal :=
    ⟨by simp [signs], hdecimal rfl, fun _ hps => Option.some.inj hps ▸ hdecimal rfl, by decide, by simp⟩
  have hzero : SpellsInt 12 ([] ++ (['٠'] ++ ['1', '2'])) :=
    .mk (by simp [signs]) (by decide) (by decide) (by simp; decide) (by decide) rfl (by decide)
  have htwelve : SpellsInt (-12) (['-'] ++ ([] ++ ['1', '2'])) :=
    .mk (by simp [signs]) (by decide) (by decide) (by simp) (by decide) rfl (by decide)
  have hascii : ∀ c ∈ Text.trim " -12".toList, c.toNat < 128 := by
    have htrim : Text.trim " -12".toList = ['-', '1', '2'] := rfl
    rw [htrim]
    simp
  have hread := ((read_codes " -12".toList).2 (-12)).1.mpr htwelve
  exact ⟨(read_codes " -007\n".toList).1 _ hcode ⟨"07".toList, rfl, by decide⟩ rfl,
    (read_codes "+007.5".toList).1 _ hpointed ⟨"07".toList, rfl, by decide⟩ rfl,
    ((read_codes "٠12".toList).2 12).1.mpr hzero, hzero, hread,
    ((read_codes " -12".toList).2 (-12)).2 hascii hread⟩

end Integers

end Polyglot.Scalar
