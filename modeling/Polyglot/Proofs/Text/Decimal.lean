import Mathlib.Algebra.Group.Nat.Defs
import Mathlib.Data.List.Induction
import Polyglot.Number.Writing
import Polyglot.Text.Character

/-!
Rows of decimal digits: the digits of a number spell it, every row has the digits of the number that it
spells behind its zeros, and what rows spell when they are joined or lose zeros at either end.
-/

namespace Polyglot

namespace Text

variable {cs ds : List Char} {c : Char} {n : Nat}

theorem toNat_of_isAsciiDigit (h : isAsciiDigit c) : 48 ≤ c.toNat ∧ c.toNat ≤ 57 := by
  simpa [isAsciiDigit, Char.le_def, UInt32.le_iff_toNat_le] using h

theorem isAsciiDigit_iff : isAsciiDigit c ↔ c.isDigit := by
  simp [isAsciiDigit, Char.isDigit, Char.le_def]

theorem decimalValue_of_isAsciiDigit (h : isAsciiDigit c) : decimalValue? c = some (c.toNat - 48) := by
  have := toNat_of_isAsciiDigit h
  rw [decimalValue?, if_pos (by omega), if_pos h]

theorem isDecimal_of_isAsciiDigit (h : isAsciiDigit c) : isDecimal c := by
  rw [isDecimal, decimalValue_of_isAsciiDigit h]
  rfl

theorem decimalValue_lt (h : decimalValue? c = some n) : n < 10 := by
  simp only [decimalValue?] at h
  split at h
  · split at h
    · next hdigit =>
      have := toNat_of_isAsciiDigit hdigit
      cases h
      omega
    · cases h
  · obtain ⟨z, hz, rfl⟩ := Option.map_eq_some_iff.mp h
    have := Array.find?_some hz
    simp only [Bool.and_eq_true, decide_eq_true_eq] at this
    omega

theorem ofDecimals_concat (cs : List Char) (c : Char) :
    ofDecimals (cs ++ [c]) = ofDecimals cs * 10 + (decimalValue? c).getD 0 := by
  rw [ofDecimals, List.foldl_append]
  rfl

theorem ofDecimals_congr (h : cs.map decimalValue? = ds.map decimalValue?) :
    ofDecimals cs = ofDecimals ds := by
  have hfold (cs : List Char) : ofDecimals cs =
      (cs.map decimalValue?).foldl (fun n v => n * 10 + v.getD 0) 0 := by
    rw [ofDecimals, List.foldl_map]
  rw [hfold, hfold, h]

theorem ofDecimals_append_of_zero {zeros : List Char} (h : ∀ c ∈ zeros, decimalValue? c = some 0)
    (ds : List Char) : ofDecimals (zeros ++ ds) = ofDecimals ds := by
  induction zeros with
  | nil => rfl
  | cons c zeros ih =>
    obtain ⟨hc, hzeros⟩ := List.forall_mem_cons.mp h
    rw [← ih hzeros, List.cons_append, ofDecimals, List.foldl_cons, hc]
    rfl

theorem isAsciiDigit_of_decimalValue (hc : c.toNat < 128) (h : decimalValue? c = some n) :
    isAsciiDigit c := by
  rw [decimalValue?, if_pos hc] at h
  by_contra hdigit
  rw [if_neg hdigit] at h
  cases h

theorem digitChar_decimalValue (h : isAsciiDigit c) : ((decimalValue? c).getD 0).digitChar = c := by
  have hcode := toNat_of_isAsciiDigit h
  rw [decimalValue_of_isAsciiDigit h, Option.getD_some, ← Char.toNat_inj,
    Nat.toNat_digitChar_of_lt_ten (by omega)]
  omega

theorem eq_of_decimalValue {d : Char} (hc : isAsciiDigit c) (hd : isAsciiDigit d)
    (h : decimalValue? c = decimalValue? d) : c = d := by
  rw [← digitChar_decimalValue hc, h, digitChar_decimalValue hd]

theorem eq_of_map_decimalValue (hcs : ∀ c ∈ cs, isAsciiDigit c) (hds : ∀ c ∈ ds, isAsciiDigit c)
    (h : cs.map decimalValue? = ds.map decimalValue?) : cs = ds := by
  have hback {cs : List Char} (hcs : ∀ c ∈ cs, isAsciiDigit c) :
      (cs.map decimalValue?).map (fun v => (v.getD 0).digitChar) = cs := by
    rw [List.map_map]
    exact (List.map_congr_left fun c hc => digitChar_decimalValue (hcs c hc)).trans (List.map_id cs)
  rw [← hback hcs, h, hback hds]

theorem ofDecimals_eq (h : ∀ c ∈ cs, isAsciiDigit c) : ofDecimals cs = Nat.ofDigitChars 10 cs 0 := by
  have hfold (init : Nat) : cs.foldl (fun n c => n * 10 + (decimalValue? c).getD 0) init =
      Nat.ofDigitChars 10 cs init := by
    induction cs generalizing init with
    | nil => rfl
    | cons c cs ih =>
      obtain ⟨hc, hcs⟩ := List.forall_mem_cons.mp h
      rw [List.foldl_cons, ih hcs, Nat.ofDigitChars_cons, decimalValue_of_isAsciiDigit hc,
        Nat.mul_comm]
      rfl
  exact hfold 0

theorem ofDecimals_append (hcs : ∀ c ∈ cs, isAsciiDigit c) (hds : ∀ c ∈ ds, isAsciiDigit c) :
    ofDecimals (cs ++ ds) = ofDecimals cs * 10 ^ ds.length + ofDecimals ds := by
  have hall : ∀ c ∈ cs ++ ds, isAsciiDigit c := by
    simpa only [List.forall_mem_append] using ⟨hcs, hds⟩
  rw [ofDecimals_eq hall, ofDecimals_eq hcs, ofDecimals_eq hds, Nat.ofDigitChars_append,
    Nat.ofDigitChars_eq_ofDigitChars_zero, Nat.mul_comm]

theorem isAsciiDigit_of_mem_replicate {n : Nat} (h : c ∈ List.replicate n '0') : isAsciiDigit c := by
  rw [List.eq_of_mem_replicate h]
  rfl

theorem ofDecimals_zeros (n : Nat) : ofDecimals (List.replicate n '0') = 0 := by
  rw [ofDecimals_eq fun c => isAsciiDigit_of_mem_replicate, Nat.ofDigitChars_replicate_zero,
    Nat.mul_zero]

theorem ofDecimals_append_zeros (h : ∀ c ∈ cs, isAsciiDigit c) (n : Nat) :
    ofDecimals (cs ++ List.replicate n '0') = ofDecimals cs * 10 ^ n := by
  rw [ofDecimals_append h fun c => isAsciiDigit_of_mem_replicate, ofDecimals_zeros,
    List.length_replicate, Nat.add_zero]

theorem ofDecimals_zeros_append (n : Nat) (cs : List Char) :
    ofDecimals (List.replicate n '0' ++ cs) = ofDecimals cs :=
  ofDecimals_append_of_zero (fun _ hc => by rw [List.eq_of_mem_replicate hc]; rfl) cs

end Text

namespace Binary64

variable {n d : Nat}

theorem digitsOf_eq (n : Nat) : digitsOf n = Nat.toDigits 10 n := by
  rw [digitsOf, Nat.toString_eq_ofList_toDigits, String.toList_ofList]

theorem isAsciiDigit_of_mem_digitsOf {c : Char} (h : c ∈ digitsOf n) : Text.isAsciiDigit c := by
  rw [digitsOf_eq] at h
  exact Text.isAsciiDigit_iff.mpr (Nat.isDigit_of_mem_toDigits (by decide) (by decide) h)

theorem ofDecimals_digitsOf (n : Nat) : Text.ofDecimals (digitsOf n) = n := by
  rw [Text.ofDecimals_eq fun _ => isAsciiDigit_of_mem_digitsOf, digitsOf_eq,
    Nat.ofDigitChars_ten_toDigits]

theorem digitsOf_ne_nil (n : Nat) : digitsOf n ≠ [] := by
  rw [digitsOf_eq]
  exact Nat.toDigits_ne_nil

theorem length_digitsOf_le {k : Nat} (hk : 0 < k) : (digitsOf n).length ≤ k ↔ n < 10 ^ k := by
  rw [digitsOf_eq]
  exact Nat.length_toDigits_le_iff (by decide) hk

theorem head_digitsOf (h : 0 < n) : (digitsOf n).head? ≠ some '0' := by
  rw [digitsOf_eq]
  induction n using Nat.strongRecOn with
  | _ n ih =>
    rw [Nat.toDigits_eq_if (by decide)]
    split
    · next hlt =>
      have hdigits : ∀ n < 10, 0 < n → n.digitChar ≠ '0' := by decide
      simpa using hdigits n hlt h
    · next hge =>
      have hhead := ih (n / 10) (by omega) (by omega)
      obtain ⟨c, cs, hcs⟩ :=
        List.exists_cons_of_ne_nil (Nat.toDigits_ne_nil (n := n / 10) (b := 10))
      rw [hcs] at hhead ⊢
      exact hhead

theorem digitsOf_lt (h : d < 10) : digitsOf d = [d.digitChar] := by
  rw [digitsOf_eq, Nat.toDigits_of_lt_base h]

theorem digitsOf_concat (hn : 0 < n) (hd : d < 10) :
    digitsOf (n * 10 + d) = digitsOf n ++ [d.digitChar] := by
  rw [← digitsOf_lt hd, digitsOf_eq, digitsOf_eq, digitsOf_eq,
    Nat.toDigits_append_toDigits (by decide) hn hd, Nat.mul_comm]

theorem decimalValue_digitChar (h : d < 10) : Text.decimalValue? d.digitChar = some d := by
  have hall : ∀ d < 10, Text.decimalValue? d.digitChar = some d := by decide
  exact hall d h

def SameDigits (n : Nat) (ds : List Char) : Prop :=
  ds.map Text.decimalValue? = (digitsOf n).map Text.decimalValue?

namespace SameDigits

variable {ds : List Char}

theorem singleton {c : Char} (hc : Text.decimalValue? c = some d) : SameDigits d [c] := by
  have hlt := Text.decimalValue_lt hc
  simp [SameDigits, digitsOf_lt hlt, decimalValue_digitChar hlt, hc]

theorem concat (h : SameDigits n ds) (hn : 0 < n) {c : Char} (hc : Text.decimalValue? c = some d) :
    SameDigits (n * 10 + d) (ds ++ [c]) := by
  have hlt := Text.decimalValue_lt hc
  have hlast := singleton hc
  rw [SameDigits] at h hlast ⊢
  rw [digitsOf_concat hn hlt, ← digitsOf_lt hlt, List.map_append, List.map_append, h, hlast]

theorem ne_nil (h : SameDigits n ds) : ds ≠ [] := by
  rintro rfl
  exact digitsOf_ne_nil n (List.map_eq_nil_iff.mp h.symm)

theorem length_eq (h : SameDigits n ds) : ds.length = (digitsOf n).length := by
  simpa using congrArg List.length h

theorem exists_digit (h : SameDigits n ds) {c : Char} (hc : c ∈ ds) :
    ∃ d ∈ digitsOf n, Text.decimalValue? d = Text.decimalValue? c :=
  List.mem_map.mp (h ▸ List.mem_map_of_mem hc)

theorem isDecimal (h : SameDigits n ds) {c : Char} (hc : c ∈ ds) : Text.isDecimal c := by
  obtain ⟨d, hd, hvalue⟩ := h.exists_digit hc
  rw [Text.isDecimal, ← hvalue]
  exact Text.isDecimal_of_isAsciiDigit (isAsciiDigit_of_mem_digitsOf hd)

theorem ofDecimals_eq (h : SameDigits n ds) : Text.ofDecimals ds = n := by
  rw [Text.ofDecimals_congr h, ofDecimals_digitsOf]

theorem eq_digitsOf (h : SameDigits n ds) (hds : ∀ c ∈ ds, Text.isAsciiDigit c) : ds = digitsOf n :=
  Text.eq_of_map_decimalValue hds (fun _ => isAsciiDigit_of_mem_digitsOf) h

theorem pos_of_length (h : SameDigits n ds) (hlength : 1 < ds.length) : 0 < n := by
  by_contra hzero
  obtain rfl : n = 0 := by omega
  rw [h.length_eq, digitsOf_lt (by decide)] at hlength
  exact absurd hlength (by decide)

theorem head_ne_zero (h : SameDigits n ds) (hn : 0 < n) : ds.head? ≠ some '0' := by
  intro hhead
  obtain ⟨more, rfl⟩ := List.head?_eq_some_iff.mp hhead
  obtain ⟨d, rest, hdigits⟩ := List.exists_cons_of_ne_nil (digitsOf_ne_nil n)
  rw [SameDigits, hdigits] at h
  have hd : Text.isAsciiDigit d := isAsciiDigit_of_mem_digitsOf (n := n) (by simp [hdigits])
  have hzero : d = '0' := Text.eq_of_decimalValue hd (by decide) (List.cons.inj h).1.symm
  exact head_digitsOf hn (by rw [hdigits, hzero]; rfl)

end SameDigits

theorem exists_sameDigits {ds : List Char} (hne : ds ≠ []) (h : ∀ c ∈ ds, Text.isDecimal c) :
    ∃ zeros digits, ds = zeros ++ digits ∧ (∀ c ∈ zeros, Text.decimalValue? c = some 0) ∧
      SameDigits (Text.ofDecimals ds) digits := by
  induction ds using List.reverseRecOn with
  | nil => exact absurd rfl hne
  | append_singleton ds c ih =>
    obtain ⟨hds, hc⟩ := List.forall_mem_append.mp h
    obtain ⟨d, hd⟩ := Option.isSome_iff_exists.mp (hc c List.mem_cons_self)
    rw [Text.ofDecimals_concat, hd, Option.getD_some]
    by_cases hnil : ds = []
    · subst hnil
      have hone : Text.ofDecimals [] * 10 + d = d := Nat.zero_add d
      exact ⟨[], [c], rfl, List.forall_mem_nil _, hone.symm ▸ .singleton hd⟩
    · obtain ⟨zeros, digits, rfl, hzeros, hdigits⟩ := ih hnil hds
      rcases Nat.eq_zero_or_pos (Text.ofDecimals (zeros ++ digits)) with hzero | hpos
      · -- All digits in front of the last one are zeros.
        rw [hzero] at hdigits
        rw [hzero, Nat.zero_mul, Nat.zero_add]
        have hall : ∀ c ∈ digits, Text.decimalValue? c = some 0 := by
          intro c hc
          obtain ⟨z, hz, hvalue⟩ := hdigits.exists_digit hc
          rw [← hvalue, List.mem_singleton.mp hz]
          rfl
        exact ⟨zeros ++ digits, [c], rfl, List.forall_mem_append.mpr ⟨hzeros, hall⟩, .singleton hd⟩
      · exact ⟨zeros, digits ++ [c], by rw [List.append_assoc], hzeros, hdigits.concat hpos hd⟩

end Binary64

end Polyglot
