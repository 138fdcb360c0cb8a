import Mathlib.Algebra.Order.Field.Power
import Mathlib.Data.Int.Log
import Mathlib.Data.Rat.Floor
import Mathlib.Tactic.FieldSimp
import Mathlib.Tactic.Linarith
import Mathlib.Tactic.NormNum
import Mathlib.Tactic.Positivity
import Mathlib.Tactic.Ring
import Polyglot.Number.Binary64

/-!
Rounding quotients. The number nearest to a quotient depends on the quotient alone, not on how it is
written, and a quotient that lies nearer to a finite number than to the numbers beside it is rounded to
that number.
-/

namespace Polyglot.Binary64

section Naturals

variable {a b c m : Nat}

theorem roundDiv_mul (hc : 0 < c) : roundDiv (a * c) (b * c) = roundDiv a b := by
  simp only [roundDiv, Nat.mul_div_mul_right _ _ hc, Nat.mul_mod_mul_right, ← Nat.mul_assoc,
    Nat.mul_lt_mul_right hc]

theorem roundDiv_congr {a' b' : Nat} (hb : 0 < b) (hb' : 0 < b') (h : a * b' = a' * b) :
    roundDiv a b = roundDiv a' b' := by
  rw [← roundDiv_mul hb', h, Nat.mul_comm b b', roundDiv_mul hb]

theorem roundDiv_eq (hlow : 2 * m * b < 2 * a + b) (hhigh : 2 * a < (2 * m + 1) * b) :
    roundDiv a b = m := by
  have hb : 0 < b := by
    rcases Nat.eq_zero_or_pos b with rfl | hb
    · omega
    · exact hb
  have hdiv := Nat.div_add_mod a b
  have hmod := Nat.mod_lt a hb
  have hle : a / b < m + 1 := (Nat.div_lt_iff_lt_mul hb).mpr (by nlinarith)
  have hge : m < a / b + 2 := by
    by_contra hlt
    have := Nat.mul_le_mul_left b (Nat.le_of_not_lt hlt)
    nlinarith
  rw [roundDiv]
  rcases Nat.lt_or_eq_of_le (Nat.le_of_lt_succ hle) with hlt | heq
  · obtain rfl : m = a / b + 1 := by omega
    rw [if_neg (by nlinarith), if_pos (by nlinarith)]
  · subst heq
    rw [if_pos (by nlinarith)]

end Naturals

def scaled (n d : Nat) (q : Int) : Nat × Nat :=
  if q < 0 then (n <<< (-q).toNat, d) else (n, d <<< q.toNat)

def grid (n d : Nat) : Int :=
  let guess : Int := (n.log2 : Int) - d.log2 - 52
  max (-1074) (if (scaled n d guess).1 / (scaled n d guess).2 < 1 <<< 52 then guess - 1 else guess)

def pack (negative : Bool) (m : Nat) (q : Int) : Binary64 :=
  let p : Nat × Int := if m = 1 <<< 53 then (1 <<< 52, q + 1) else (m, q)
  if p.2 > 971 then infinity negative
  else if p.1 < 1 <<< 52 then signed negative p.1
  else signed negative (((p.2 + 1075).toNat <<< 52) + (p.1 - (1 <<< 52)))

section Quotients

variable {n d n' d' : Nat} {negative : Bool}

theorem ofRatio_eq (hn : 0 < n) (hd : 0 < d) :
    ofRatio negative n d =
      pack negative (roundDiv (scaled n d (grid n d)).1 (scaled n d (grid n d)).2) (grid n d) := by
  rw [ofRatio, if_neg (not_or.mpr ⟨hn.ne', hd.ne'⟩)]
  rfl

theorem scaled_pos (hd : 0 < d) (q : Int) : 0 < (scaled n d q).2 := by
  rw [scaled]
  split
  · exact hd
  · rw [Nat.shiftLeft_eq]
    positivity

theorem scaled_eq (n d : Nat) (q : Int) :
    ((scaled n d q).1 : ℚ) / (scaled n d q).2 = n / d * 2 ^ (-q) := by
  rw [scaled]
  split
  · next hq =>
    obtain ⟨k, hk⟩ : ∃ k : Nat, q = -(k : Int) := ⟨(-q).toNat, by omega⟩
    subst hk
    simp only [neg_neg, Int.toNat_natCast, Nat.shiftLeft_eq, Nat.cast_mul, Nat.cast_pow,
      Nat.cast_ofNat, zpow_natCast]
    ring
  · next hq =>
    obtain ⟨k, rfl⟩ : ∃ k : Nat, q = (k : Int) := ⟨q.toNat, by omega⟩
    simp only [Int.toNat_natCast, Nat.shiftLeft_eq, Nat.cast_mul, Nat.cast_pow, Nat.cast_ofNat,
      zpow_neg, zpow_natCast]
    rw [div_mul_eq_div_div, div_eq_mul_inv ((n : ℚ) / d)]

theorem log_quotient (hn : 0 < n) (hd : 0 < d) :
    (n.log2 : Int) - d.log2 - 1 ≤ Int.log 2 ((n : ℚ) / d) ∧
      Int.log 2 ((n : ℚ) / d) < (n.log2 : Int) - d.log2 + 1 := by
  have hn' : (0 : ℚ) < n := by exact_mod_cast hn
  have hd' : (0 : ℚ) < d := by exact_mod_cast hd
  have hr : (0 : ℚ) < n / d := div_pos hn' hd'
  have hnlow : (2 : ℚ) ^ (n.log2 : Int) ≤ n := by
    exact_mod_cast Nat.log2_self_le hn.ne'
  have hnhigh : (n : ℚ) < 2 ^ ((n.log2 : Int) + 1) := by
    exact_mod_cast Nat.lt_log2_self (n := n)
  have hdlow : (2 : ℚ) ^ (d.log2 : Int) ≤ d := by
    exact_mod_cast Nat.log2_self_le hd.ne'
  have hdhigh : (d : ℚ) < 2 ^ ((d.log2 : Int) + 1) := by
    exact_mod_cast Nat.lt_log2_self (n := d)
  constructor
  · rw [← Int.zpow_le_iff_le_log (by norm_num) hr, le_div_iff₀ hd']
    calc ((2 : Nat) : ℚ) ^ ((n.log2 : Int) - d.log2 - 1) * d
        ≤ 2 ^ ((n.log2 : Int) - d.log2 - 1) * 2 ^ ((d.log2 : Int) + 1) := by
          push_cast
          gcongr
      _ = 2 ^ (n.log2 : Int) := by
          rw [← zpow_add₀ (by norm_num)]
          congr 1
          ring
      _ ≤ n := hnlow
  · rw [← Int.lt_zpow_iff_log_lt (by norm_num) hr, div_lt_iff₀ hd']
    calc (n : ℚ) < 2 ^ ((n.log2 : Int) + 1) := hnhigh
      _ = 2 ^ ((n.log2 : Int) - d.log2 + 1) * 2 ^ (d.log2 : Int) := by
          rw [← zpow_add₀ (by norm_num)]
          congr 1
          ring
      _ ≤ ((2 : Nat) : ℚ) ^ ((n.log2 : Int) - d.log2 + 1) * d := by
          push_cast
          gcongr

theorem grid_eq (hn : 0 < n) (hd : 0 < d) :
    grid n d = max (-1074) (Int.log 2 ((n : ℚ) / d) - 52) := by
  have hr : (0 : ℚ) < n / d := div_pos (by exact_mod_cast hn) (by exact_mod_cast hd)
  obtain ⟨hlow, hhigh⟩ := log_quotient hn hd
  have hguess (q : Int) : (scaled n d q).1 / (scaled n d q).2 < 1 <<< 52 ↔
      Int.log 2 ((n : ℚ) / d) < q + 52 := by
    have hpos : (0 : ℚ) < (scaled n d q).2 := by exact_mod_cast scaled_pos hd q
    rw [Nat.div_lt_iff_lt_mul (scaled_pos hd q), ← Int.lt_zpow_iff_log_lt (by norm_num) hr,
      ← Nat.cast_lt (α := ℚ), Nat.cast_mul, ← div_lt_iff₀ hpos, scaled_eq, zpow_neg,
      ← div_eq_mul_inv, div_lt_iff₀ (by positivity), zpow_add₀ (by norm_num), mul_comm,
      show 1 <<< 52 = 2 ^ 52 from rfl]
    norm_num
  rw [grid]
  simp only [hguess]
  split
  · congr 1
    omega
  · congr 1
    omega

theorem ofRatio_congr (hn : 0 < n) (hd : 0 < d) (hn' : 0 < n') (hd' : 0 < d')
    (h : n * d' = n' * d) : ofRatio negative n d = ofRatio negative n' d' := by
  have hquotient : (n : ℚ) / d = n' / d' := by
    rw [div_eq_div_iff (by exact_mod_cast hd.ne') (by exact_mod_cast hd'.ne')]
    exact_mod_cast h
  have hgrid : grid n d = grid n' d' := by rw [grid_eq hn hd, grid_eq hn' hd', hquotient]
  rw [ofRatio_eq hn hd, ofRatio_eq hn' hd', hgrid]
  congr 1
  refine roundDiv_congr (scaled_pos hd _) (scaled_pos hd' _) ?_
  have hscaled := scaled_eq n d (grid n' d')
  rw [hquotient, ← scaled_eq,
    div_eq_div_iff (by exact_mod_cast (scaled_pos hd _).ne') (by exact_mod_cast (scaled_pos hd' _).ne')]
    at hscaled
  exact_mod_cast hscaled

theorem roundDiv_scaled {q : Int} {m : Nat} (hd : 0 < d) (hlow : (2 * m - 1) * 2 ^ q < 2 * ((n : ℚ) / d))
    (hhigh : 2 * ((n : ℚ) / d) < (2 * m + 1) * 2 ^ q) :
    roundDiv (scaled n d q).1 (scaled n d q).2 = m := by
  have hpos : (0 : ℚ) < (scaled n d q).2 := by exact_mod_cast scaled_pos hd q
  have hunit : (0 : ℚ) < 2 ^ q := by positivity
  have hscaled := scaled_eq n d q
  rw [zpow_neg, ← div_eq_mul_inv, div_eq_div_iff hpos.ne' hunit.ne'] at hscaled
  refine roundDiv_eq ?_ ?_
  · have : 2 * (m : ℚ) * (scaled n d q).2 < 2 * (scaled n d q).1 + (scaled n d q).2 := by
      nlinarith
    exact_mod_cast this
  · have : 2 * ((scaled n d q).1 : ℚ) < (2 * m + 1) * (scaled n d q).2 := by
      nlinarith
    exact_mod_cast this

end Quotients

section Finite

variable {x : Binary64}

theorem signed_self (x : Binary64) : signed x.isNegative (x.bits.toNat % 2 ^ 63) = x := by
  have hlt : x.bits.toNat < 2 ^ 64 := x.bits.toNat_lt
  rw [signed, isNegative]
  congr 1
  rw [← UInt64.ofNat_toNat (x := x.bits)]
  congr 1
  simp only [decide_eq_true_eq, UInt64.ofNat_toNat]
  split <;> omega

theorem bits_mod (x : Binary64) :
    x.bits.toNat % 2 ^ 63 = x.exponentField <<< 52 + x.fraction := by
  rw [exponentField, fraction, Nat.shiftRight_eq_div_pow, Nat.shiftLeft_eq, Nat.one_shiftLeft]
  omega

theorem fraction_lt (x : Binary64) : x.fraction < 1 <<< 52 :=
  Nat.mod_lt _ (by decide)

theorem field_lt (h : x.isFinite) : x.exponentField < 2047 := by
  simpa [isFinite] using h

theorem significand_lt (x : Binary64) : x.significand < 1 <<< 53 := by
  have := fraction_lt x
  rw [Nat.one_shiftLeft] at *
  rw [significand, Nat.one_shiftLeft]
  split <;> omega

theorem pack_carry (negative : Bool) (q : Int) :
    pack negative (1 <<< 53) q = pack negative (1 <<< 52) (q + 1) := by
  have hne : ¬ 1 <<< 52 = 1 <<< 53 := by decide
  rw [pack, pack, if_pos rfl, if_neg hne]

theorem pack_self (h : x.isFinite) : pack x.isNegative x.significand x.exponent = x := by
  have hfraction := fraction_lt x
  have hsignificand := significand_lt x
  have hfield := field_lt h
  have hself := signed_self x
  rw [bits_mod] at hself
  rw [pack, if_neg hsignificand.ne]
  dsimp only
  by_cases hzero : x.exponentField = 0
  · have hs : x.significand = x.fraction := if_pos hzero
    have he : x.exponent = -1074 := if_pos hzero
    rw [hzero, Nat.zero_shiftLeft, Nat.zero_add] at hself
    have hq : ¬ x.exponent > 971 := by omega
    rw [if_neg hq, hs, if_pos hfraction, hself]
  · have hs : x.significand = 1 <<< 52 + x.fraction := if_neg hzero
    have he : x.exponent = x.exponentField - 1075 := if_neg hzero
    have hq : ¬ x.exponent > 971 := by omega
    have hm : ¬ x.significand < 1 <<< 52 := by omega
    have hfieldOf : (x.exponent + 1075).toNat = x.exponentField := by omega
    rw [if_neg hq, if_neg hm, hfieldOf, hs, Nat.add_sub_cancel_left, hself]

theorem exponent_cases (x : Binary64) :
    x.exponent = -1074 ∨ -1074 < x.exponent ∧ 1 <<< 52 ≤ x.significand := by
  by_cases hzero : x.exponentField = 0
  · exact .inl (if_pos hzero)
  · have hs : x.significand = 1 <<< 52 + x.fraction := if_neg hzero
    have he : x.exponent = x.exponentField - 1075 := if_neg hzero
    omega

/--
A quotient that lies nearer to a number than to those beside it. Below a power of two they lie twice as
dense.
-/
structure Near (x : Binary64) (n d : Nat) : Prop where
  low : (2 * x.significand - 1) * 2 ^ x.exponent < 2 * ((n : ℚ) / d)
  high : 2 * ((n : ℚ) / d) < (2 * x.significand + 1) * 2 ^ x.exponent
  quarter : x.significand = 1 <<< 52 →
    (4 * x.significand - 1) * 2 ^ x.exponent < 4 * ((n : ℚ) / d)

variable {n d : Nat}

theorem Near.grid (h : x.Near n d) (hn : 0 < n) (hd : 0 < d) :
    grid n d = x.exponent ∨
      x.significand = 1 <<< 52 ∧ (n : ℚ) / d < 2 ^ 52 * 2 ^ x.exponent ∧
        grid n d = x.exponent - 1 := by
  have hr : (0 : ℚ) < n / d := div_pos (by exact_mod_cast hn) (by exact_mod_cast hd)
  have hunit : (0 : ℚ) < 2 ^ x.exponent := by positivity
  have hmost : (x.significand : ℚ) + 1 ≤ 2 ^ 53 := by exact_mod_cast significand_lt x
  have hhigh := h.high
  have hlog : Int.log 2 ((n : ℚ) / d) < 53 + x.exponent := by
    rw [← Int.lt_zpow_iff_log_lt (by norm_num) hr, zpow_add₀ (by norm_num)]
    push_cast
    nlinarith
  rw [grid_eq hn hd]
  rcases exponent_cases x with he | ⟨he, hleast⟩
  · left
    omega
  by_cases hbelow : Int.log 2 ((n : ℚ) / d) < 52 + x.exponent
  · have hlt : (n : ℚ) / d < 2 ^ 52 * 2 ^ x.exponent := by
      rw [← Int.lt_zpow_iff_log_lt (by norm_num) hr, zpow_add₀ (by norm_num)] at hbelow
      exact_mod_cast hbelow
    have hs : x.significand = 1 <<< 52 := by
      have hlow := h.low
      have : (x.significand : ℚ) < 2 ^ 52 + 1 := by nlinarith
      have : x.significand < 2 ^ 52 + 1 := by exact_mod_cast this
      exact Nat.le_antisymm (Nat.le_of_lt_succ this) hleast
    have habove : 51 + x.exponent ≤ Int.log 2 ((n : ℚ) / d) := by
      have hquarter := h.quarter hs
      rw [hs, show 1 <<< 52 = 2 ^ 52 from rfl] at hquarter
      rw [← Int.zpow_le_iff_le_log (by norm_num) hr, zpow_add₀ (by norm_num)]
      push_cast at hquarter ⊢
      nlinarith
    exact .inr ⟨hs, hlt, by omega⟩
  · left
    omega

theorem Near.ofRatio_eq (h : x.Near n d) (hx : x.isFinite) (hn : 0 < n) (hd : 0 < d) :
    ofRatio x.isNegative n d = x := by
  rw [Binary64.ofRatio_eq hn hd]
  rcases h.grid hn hd with hgrid | ⟨hs, hlt, hgrid⟩
  · rw [hgrid, roundDiv_scaled hd h.low h.high, pack_self hx]
  · have hhalf : (2 : ℚ) ^ x.exponent = 2 * 2 ^ (x.exponent - 1) := by
      rw [← zpow_one_add₀ (by norm_num)]
      congr 1
      ring
    have hquarter := h.quarter hs
    have hunit : (0 : ℚ) < 2 ^ (x.exponent - 1) := by positivity
    rw [hs, hhalf, show 1 <<< 52 = 2 ^ 52 from rfl] at hquarter
    rw [hhalf] at hlt
    have hround : roundDiv (scaled n d (x.exponent - 1)).1 (scaled n d (x.exponent - 1)).2 =
        1 <<< 53 := by
      rw [show 1 <<< 53 = 2 ^ 53 from rfl]
      push_cast at hquarter
      refine roundDiv_scaled hd ?_ ?_
      · push_cast
        linarith
      · push_cast
        linarith
    rw [hgrid, hround, pack_carry, sub_add_cancel, ← hs, pack_self hx]

end Finite

section Decimals

variable {m : Nat} {p : Int}

theorem ofDecimal_eq (negative : Bool) (hm : 0 < m) (hlow : -400 ≤ p) (hhigh : p ≤ 400) :
    ofDecimal negative m p = ofRatio negative (m * 10 ^ p.toNat) (10 ^ (-p).toNat) := by
  rw [ofDecimal, if_neg hm.ne', if_neg (by omega), if_neg (by omega)]
  split
  · next hp =>
    rw [Int.toNat_of_nonpos hp.le, Nat.pow_zero, Nat.mul_one]
    rfl
  · next hp =>
    rw [Int.toNat_of_nonpos (show -p ≤ 0 by omega), Nat.pow_zero]
    rfl

theorem quotient_decimal (m : Nat) (p : Int) :
    ((m * 10 ^ p.toNat : Nat) : ℚ) / (10 ^ (-p).toNat : Nat) = m * 10 ^ p := by
  rcases le_total 0 p with hp | hp
  · obtain ⟨k, rfl⟩ := Int.eq_ofNat_of_zero_le hp
    simp
  · obtain ⟨k, hk⟩ := Int.eq_ofNat_of_zero_le (neg_nonneg.mpr hp)
    obtain rfl : p = -(k : Int) := by omega
    simp [div_eq_mul_inv]

theorem ofDecimal_shift (negative : Bool) {k : Nat} (hlow : -400 ≤ p - k) (hhigh : p ≤ 400) :
    ofDecimal negative (m * 10 ^ k) (p - k) = ofDecimal negative m p := by
  rcases Nat.eq_zero_or_pos m with rfl | hm
  · rw [Nat.zero_mul, ofDecimal, ofDecimal, if_pos rfl, if_pos rfl]
  rw [ofDecimal_eq negative (by positivity) hlow (by omega),
    ofDecimal_eq negative hm (by omega) hhigh]
  refine ofRatio_congr (by positivity) (by positivity) (by positivity) (by positivity) ?_
  rw [Nat.mul_assoc, Nat.mul_assoc, Nat.mul_assoc, ← Nat.pow_add, ← Nat.pow_add, ← Nat.pow_add]
  congr 2
  omega

end Decimals

end Polyglot.Binary64
