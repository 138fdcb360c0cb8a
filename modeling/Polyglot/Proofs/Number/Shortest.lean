import Mathlib.Data.List.TakeWhile
import Mathlib.Data.Nat.Cast.Order.Field
import Polyglot.Proofs.Number.Rounding
import Polyglot.Proofs.Text.Decimal

/-!
The shortest text of a finite number spells the number: either it was tried, or it has seventeen digits,
which lie nearer to the number than to any other one.
-/

namespace Polyglot.Binary64

section LeadingPower

variable {n d : Nat}

theorem leadingPower_go {fuel : Nat} (k : Int) (hlt : n < d) (hfuel : d ≤ n * 10 ^ fuel) :
    ∃ j : Nat, leadingPower.go d fuel k n = k + j ∧ n * 10 ^ j < d ∧ d ≤ n * 10 ^ (j + 1) := by
  induction fuel generalizing k n with
  | zero => omega
  | succ fuel ih =>
    rw [leadingPower.go]
    split
    · next hle => exact ⟨0, by simp, by simpa using hlt, by simpa using hle⟩
    · next hgt =>
      obtain ⟨j, hgo, hlow, hhigh⟩ := ih (k + 1) (Nat.lt_of_not_le hgt)
        (by rwa [Nat.mul_assoc, ← Nat.pow_succ'])
      refine ⟨j + 1, ?_, ?_, ?_⟩
      · rw [hgo]
        push_cast
        ring
      · rwa [Nat.pow_succ', ← Nat.mul_assoc]
      · rwa [Nat.pow_succ' (n := j + 1), ← Nat.mul_assoc]

theorem leadingPower_spec (hd : 0 < d) (hfuel : d ≤ n * 10 ^ 1200) :
    (10 : ℚ) ^ leadingPower n d ≤ n / d ∧ (n : ℚ) / d < 10 ^ (leadingPower n d + 1) := by
  have hd' : (0 : ℚ) < d := by exact_mod_cast hd
  rw [leadingPower]
  split
  · next hle =>
    have hq : 0 < n / d := Nat.div_pos hle hd
    have hlen : 0 < (digitsOf (n / d)).length := List.length_pos_of_ne_nil (digitsOf_ne_nil _)
    obtain ⟨k, hk⟩ : ∃ k, (digitsOf (n / d)).length = k + 1 := ⟨_, (Nat.sub_add_cancel hlen).symm⟩
    have hhigh : n / d < 10 ^ (k + 1) := (length_digitsOf_le (Nat.succ_pos k)).mp hk.le
    have hlow : 10 ^ k ≤ n / d := by
      rcases Nat.eq_zero_or_pos k with rfl | hpos
      · exact hq
      · by_contra hlt
        have := (length_digitsOf_le hpos).mpr (Nat.lt_of_not_le hlt)
        omega
    rw [hk, le_div_iff₀ hd', div_lt_iff₀ hd']
    push_cast
    rw [add_sub_cancel_right]
    constructor
    · have := (Nat.le_div_iff_mul_le hd).mp hlow
      exact_mod_cast this
    · have := (Nat.div_lt_iff_lt_mul hd).mp hhigh
      exact_mod_cast this
  · next hgt =>
    obtain ⟨j, hgo, hlow, hhigh⟩ := leadingPower_go (1 : Int) (Nat.lt_of_not_le hgt) hfuel
    have hlow' : (n : ℚ) * 10 ^ j < d := by exact_mod_cast hlow
    have hhigh' : (d : ℚ) ≤ n * 10 ^ (j + 1) := by exact_mod_cast hhigh
    rw [hgo, le_div_iff₀ hd', div_lt_iff₀ hd']
    constructor
    · rw [zpow_neg, inv_mul_le_iff₀ (by positivity), show 1 + (j : Int) = ((j + 1 : Nat) : Int) by omega,
        zpow_natCast, mul_comm]
      exact hhigh'
    · rw [show -(1 + (j : Int)) + 1 = -(j : Int) by omega, zpow_neg, zpow_natCast,
        lt_inv_mul_iff₀ (by positivity), mul_comm]
      exact hlow'

end LeadingPower

section Neighbours

variable {n d m : Nat} {power shift : Int} {count : Nat}

def shifted (n d : Nat) (shift : Int) : Nat × Nat :=
  if shift < 0 then (n, d * Nat.pow 10 (-shift).toNat) else (n * Nat.pow 10 shift.toNat, d)

theorem shifted_pos (hd : 0 < d) (shift : Int) : 0 < (shifted n d shift).2 := by
  rw [shifted]
  split
  · exact Nat.mul_pos hd (Nat.pow_pos (by decide))
  · exact hd

theorem shifted_eq (n d : Nat) (shift : Int) :
    ((shifted n d shift).1 : ℚ) / (shifted n d shift).2 = n / d * 10 ^ shift := by
  rw [shifted]
  split
  · next hneg =>
    obtain ⟨k, rfl⟩ : ∃ k : Nat, shift = -(k : Int) := ⟨(-shift).toNat, by omega⟩
    simp only [neg_neg, Int.toNat_natCast, Nat.pow_eq, Nat.cast_mul, Nat.cast_pow, Nat.cast_ofNat,
      zpow_neg, zpow_natCast]
    rw [div_mul_eq_div_div, div_eq_mul_inv ((n : ℚ) / d)]
  · next hneg =>
    obtain ⟨k, rfl⟩ : ∃ k : Nat, shift = (k : Int) := ⟨shift.toNat, by omega⟩
    simp only [Int.toNat_natCast, Nat.pow_eq, Nat.cast_mul, Nat.cast_pow, Nat.cast_ofNat,
      zpow_natCast]
    ring

theorem neighbours_eq (n d : Nat) (power : Int) (count : Nat) :
    neighbours n d power count =
      let a := (shifted n d (count - 1 - power)).1
      let b := (shifted n d (count - 1 - power)).2
      if 2 * (a % b) < b || (2 * (a % b) == b && a / b % 2 == 0) then [a / b, a / b + 1]
      else [a / b + 1, a / b] :=
  rfl

theorem le_of_mem_neighbours (h : m ∈ neighbours n d power count) :
    (m : ℚ) ≤ n / d * 10 ^ ((count : Int) - 1 - power) + 1 := by
  rw [neighbours_eq] at h
  rw [← shifted_eq]
  dsimp only at h
  generalize (shifted n d ((count : Int) - 1 - power)).1 = a at *
  generalize (shifted n d ((count : Int) - 1 - power)).2 = b at *
  have hle : m ≤ a / b + 1 := by
    split at h <;> simp only [List.mem_cons, List.not_mem_nil, or_false] at h <;> omega
  calc (m : ℚ) ≤ ((a / b : Nat) : ℚ) + 1 := by exact_mod_cast hle
    _ ≤ (a : ℚ) / b + 1 := by
        gcongr
        exact Nat.cast_div_le

theorem nearest_neighbour (hd : 0 < d) (h : (neighbours n d power count).head? = some m) :
    2 * (m : ℚ) ≤ 2 * (n / d * 10 ^ ((count : Int) - 1 - power)) + 1 ∧
      2 * ((n : ℚ) / d * 10 ^ ((count : Int) - 1 - power)) ≤ 2 * m + 1 := by
  have hpos := shifted_pos (n := n) hd ((count : Int) - 1 - power)
  rw [neighbours_eq] at h
  rw [← shifted_eq]
  dsimp only at h
  generalize (shifted n d ((count : Int) - 1 - power)).1 = a at *
  generalize (shifted n d ((count : Int) - 1 - power)).2 = b at *
  have hdiv := Nat.div_add_mod a b
  have hmod := Nat.mod_lt a hpos
  have hbounds : 2 * (m * b) ≤ 2 * a + b ∧ 2 * a ≤ 2 * (m * b) + b := by
    split at h
    · next hle =>
      obtain rfl : a / b = m := by simpa using h
      have : 2 * (a % b) ≤ b := by
        simp only [Bool.or_eq_true, decide_eq_true_eq, Bool.and_eq_true, beq_iff_eq] at hle
        omega
      rw [Nat.mul_comm (a / b)]
      omega
    · next hgt =>
      obtain rfl : a / b + 1 = m := by simpa using h
      have : b ≤ 2 * (a % b) := by
        simp only [Bool.or_eq_true, decide_eq_true_eq, Bool.and_eq_true, beq_iff_eq] at hgt
        omega
      rw [Nat.add_mul, Nat.one_mul, Nat.mul_comm (a / b)]
      omega
  have hb : (0 : ℚ) < b := by exact_mod_cast hpos
  have hlow : 2 * ((m : ℚ) * b) ≤ 2 * a + b := by exact_mod_cast hbounds.1
  have hhigh : 2 * (a : ℚ) ≤ 2 * (m * b) + b := by exact_mod_cast hbounds.2
  constructor
  · refine le_of_mul_le_mul_right ?_ hb
    calc 2 * (m : ℚ) * b ≤ 2 * a + b := by linarith
      _ = (2 * (a / b) + 1) * b := by field_simp
  · refine le_of_mul_le_mul_right ?_ hb
    calc 2 * ((a : ℚ) / b) * b = 2 * a := by field_simp
      _ ≤ (2 * m + 1) * b := by linarith

end Neighbours

section Shortest

variable {x : Binary64} {n d m : Nat} {power : Int} {count : Nat}

def magnitude (x : Binary64) : ℚ :=
  x.significand * 2 ^ x.exponent

theorem ratio_eq (x : Binary64) : (x.ratio.1 : ℚ) / x.ratio.2 = x.magnitude := by
  rw [ratio, magnitude]
  split
  · next hneg =>
    obtain ⟨k, hk⟩ : ∃ k : Nat, x.exponent = -(k : Int) := ⟨(-x.exponent).toNat, by omega⟩
    rw [hk, neg_neg, Int.toNat_natCast, Nat.one_shiftLeft, zpow_neg, zpow_natCast, div_eq_mul_inv]
    push_cast
    rfl
  · next hneg =>
    obtain ⟨k, hk⟩ : ∃ k : Nat, x.exponent = (k : Int) := ⟨x.exponent.toNat, by omega⟩
    rw [hk, Int.toNat_natCast, Nat.shiftLeft_eq, zpow_natCast]
    push_cast
    rw [div_one]

theorem significand_pos (h : ¬ x.isZero) : 0 < x.significand := by
  rw [significand]
  split
  · next hfield =>
    refine Nat.pos_of_ne_zero fun hfraction => h ?_
    simp [isZero, hfield, hfraction]
  · exact Nat.add_pos_left (by decide) _

theorem ratio_pos (h : ¬ x.isZero) : 0 < x.ratio.1 ∧ 0 < x.ratio.2 := by
  have hs := significand_pos h
  rw [ratio]
  split
  · exact ⟨hs, by rw [Nat.one_shiftLeft]; positivity⟩
  · exact ⟨by rw [Nat.shiftLeft_eq]; positivity, Nat.one_pos⟩

theorem exponent_bounds (hx : x.isFinite) : -1074 ≤ x.exponent ∧ x.exponent ≤ 971 := by
  have hfield := field_lt hx
  rw [exponent]
  split <;> omega

theorem ratio_le (hx : x.isFinite) {k : Nat} (hk : 1074 ≤ k) : x.ratio.2 ≤ 10 ^ k := by
  obtain ⟨hlow, -⟩ := exponent_bounds hx
  rw [ratio]
  split
  · rw [Nat.one_shiftLeft]
    calc 2 ^ (-x.exponent).toNat ≤ 10 ^ (-x.exponent).toNat := Nat.pow_le_pow_left (by decide) _
      _ ≤ 10 ^ k := Nat.pow_le_pow_right (by decide) (by omega)
  · exact Nat.pow_pos (by decide)

theorem leadingPower_ratio (hx : x.isFinite) (h : ¬ x.isZero) :
    (10 : ℚ) ^ leadingPower x.ratio.1 x.ratio.2 ≤ x.magnitude ∧
      x.magnitude < 10 ^ (leadingPower x.ratio.1 x.ratio.2 + 1) := by
  obtain ⟨hn, hd⟩ := ratio_pos h
  rw [← ratio_eq]
  exact leadingPower_spec hd ((ratio_le hx (by decide)).trans (Nat.le_mul_of_pos_left _ hn))

theorem leadingPower_bounds (hx : x.isFinite) (h : ¬ x.isZero) :
    -358 ≤ leadingPower x.ratio.1 x.ratio.2 ∧ leadingPower x.ratio.1 x.ratio.2 ≤ 342 := by
  obtain ⟨hlow, hhigh⟩ := leadingPower_ratio hx h
  obtain ⟨hleast, hmost⟩ := exponent_bounds hx
  have hpos : (1 : ℚ) ≤ x.significand := by exact_mod_cast significand_pos h
  have hlt : (x.significand : ℚ) ≤ 2 ^ (53 : Int) := by exact_mod_cast (significand_lt x).le
  have hsmall : (10 : ℚ) ^ (-358 : Int) ≤ x.magnitude := by
    calc (10 : ℚ) ^ (-358 : Int) ≤ 8 ^ (-358 : Int) := by
          rw [zpow_neg, zpow_neg]
          exact inv_anti₀ (by positivity) (zpow_le_zpow_left₀ (by norm_num) (by norm_num) (by norm_num))
      _ = 1 * 2 ^ (-1074 : Int) := by
          rw [one_mul, show (8 : ℚ) = 2 ^ (3 : Int) by norm_num, ← zpow_mul]
          rfl
      _ ≤ x.significand * 2 ^ x.exponent := by
          gcongr
          norm_num
  have hlarge : x.magnitude ≤ 10 ^ (342 : Int) := by
    calc x.significand * 2 ^ x.exponent ≤ (2 : ℚ) ^ (53 : Int) * 2 ^ (971 : Int) := by
          gcongr
          norm_num
      _ ≤ 2 ^ (1026 : Int) := by
          rw [← zpow_add₀ (by norm_num)]
          gcongr <;> norm_num
      _ = 8 ^ (342 : Int) := by
          rw [show (8 : ℚ) = 2 ^ (3 : Int) by norm_num, ← zpow_mul]
          rfl
      _ ≤ 10 ^ (342 : Int) := zpow_le_zpow_left₀ (by norm_num) (by norm_num) (by norm_num)
  have hbelow := (zpow_lt_zpow_iff_right₀ (by norm_num)).mp (hsmall.trans_lt hhigh)
  have habove := (zpow_le_zpow_iff_right₀ (by norm_num)).mp (hlow.trans hlarge)
  omega

/--
What a row of digits, the first of which stands for a power of ten, has to be to spell a number up to its
sign.
-/
structure Spells (x : Binary64) (ds : List Char) (power : Int) : Prop where
  digits : ∀ c ∈ ds, Text.isAsciiDigit c
  nonempty : ds ≠ []
  head : ds.head? ≠ some '0'
  low : -400 ≤ power + 1 - ds.length
  high : power ≤ 400
  value : ofDecimal x.isNegative (Text.ofDecimals ds) (power + 1 - ds.length) = x

theorem exists_zeros (ds : List Char) :
    ∃ j, ds = (ds.reverse.dropWhile (· == '0')).reverse ++ List.replicate j '0' := by
  refine ⟨(ds.reverse.takeWhile (· == '0')).length, ?_⟩
  have hzeros : (ds.reverse.takeWhile (· == '0')).reverse =
      List.replicate (ds.reverse.takeWhile (· == '0')).length '0' := by
    rw [List.eq_replicate_iff, List.length_reverse]
    refine ⟨rfl, fun c hc => ?_⟩
    simpa using List.mem_takeWhile_imp (List.mem_reverse.mp hc)
  rw [← hzeros, ← List.reverse_append, List.takeWhile_append_dropWhile, List.reverse_reverse]

theorem ofDecimal_ne (h : ¬ x.isZero) (hm : ofDecimal x.isNegative m power = x) : 0 < m := by
  refine Nat.pos_of_ne_zero fun hzero => h ?_
  rw [hzero, ofDecimal, if_pos rfl] at hm
  rw [← hm]
  cases x.isNegative <;> rfl

theorem spells_decimal {low : Int} (h : ¬ x.isZero) (hm : ofDecimal x.isNegative m low = x)
    (hlow : -400 ≤ low) (hhigh : low + (digitsOf m).length ≤ 400) :
    Spells x (shortest.decimal m low).digits (shortest.decimal m low).power := by
  have hpos := ofDecimal_ne h hm
  rw [shortest.decimal]
  dsimp only
  obtain ⟨j, hj⟩ := exists_zeros (digitsOf m)
  generalize hkept : ((digitsOf m).reverse.dropWhile (· == '0')).reverse = kept at *
  have hlength : (digitsOf m).length = kept.length + j := by
    rw [hj, List.length_append, List.length_replicate]
  have hdigits : ∀ c ∈ kept, Text.isAsciiDigit c := fun c hc =>
    isAsciiDigit_of_mem_digitsOf (n := m) (by rw [hj]; exact List.mem_append_left _ hc)
  have hvalue : Text.ofDecimals kept * 10 ^ j = m := by
    rw [← Text.ofDecimals_append_zeros hdigits, ← hj, ofDecimals_digitsOf]
  have hnonempty : kept ≠ [] := by
    rintro rfl
    rw [show Text.ofDecimals [] = 0 from rfl, Nat.zero_mul] at hvalue
    omega
  refine ⟨hdigits, hnonempty, ?_, by omega, by omega, ?_⟩
  · have hhead := head_digitsOf hpos
    obtain ⟨c, cs, rfl⟩ := List.exists_cons_of_ne_nil hnonempty
    rw [hj] at hhead
    exact hhead
  · have hpower : low + (digitsOf m).length - 1 + 1 - kept.length = low + j := by omega
    rw [hpower, ← ofDecimal_shift (k := j) _ (by omega) (by omega), hvalue, add_sub_cancel_right, hm]

theorem ofDecimal_nearest (hx : x.isFinite) (h : ¬ x.isZero)
    (hm : (neighbours x.ratio.1 x.ratio.2 (leadingPower x.ratio.1 x.ratio.2) 17).head? = some m) :
    ofDecimal x.isNegative m (leadingPower x.ratio.1 x.ratio.2 - 16) = x := by
  obtain ⟨hn, hd⟩ := ratio_pos h
  obtain ⟨hleast, hmost⟩ := leadingPower_bounds hx h
  obtain ⟨hlow, -⟩ := leadingPower_ratio hx h
  obtain ⟨hbelow, habove⟩ := nearest_neighbour hd hm
  rw [ratio_eq, show ((17 : Nat) : Int) - 1 - leadingPower x.ratio.1 x.ratio.2 =
    -(leadingPower x.ratio.1 x.ratio.2 - 16) by omega, zpow_neg] at hbelow habove
  generalize leadingPower x.ratio.1 x.ratio.2 = power at *
  have hstep : (0 : ℚ) < 10 ^ (power - 16) := by positivity
  have hclose : 10 ^ 16 * (10 : ℚ) ^ (power - 16) ≤ x.magnitude := by
    rw [← zpow_natCast, ← zpow_add₀ (by norm_num)]
    simpa using hlow
  generalize hdef : (10 : ℚ) ^ (power - 16) = step at *
  have hdown : 2 * (m * step) ≤ 2 * x.magnitude + step := by
    have := mul_le_mul_of_nonneg_right hbelow hstep.le
    field_simp at this
    linarith
  have hup : 2 * x.magnitude ≤ 2 * (m * step) + step := by
    have := mul_le_mul_of_nonneg_right habove hstep.le
    field_simp at this
    linarith
  have hpos : 0 < m := by
    refine Nat.pos_of_ne_zero fun hzero => ?_
    rw [hzero, Nat.cast_zero, zero_mul] at hup
    linarith
  have hunit : (0 : ℚ) < 2 ^ x.exponent := by positivity
  have hsignificand : (x.significand : ℚ) ≤ 2 ^ 53 := by exact_mod_cast (significand_lt x).le
  rw [magnitude] at *
  rw [ofDecimal_eq _ hpos (by omega) (by omega)]
  -- Decimals of this length stand closer than numbers do, also below a power of two.
  refine Near.ofRatio_eq ⟨?_, ?_, fun hs => ?_⟩ hx (by positivity) (by positivity)
  · rw [quotient_decimal, hdef]
    nlinarith
  · rw [quotient_decimal, hdef]
    nlinarith
  · rw [quotient_decimal, hdef]
    have : (x.significand : ℚ) = 2 ^ 52 := by exact_mod_cast hs
    nlinarith

theorem length_neighbour (hx : x.isFinite) (h : ¬ x.isZero)
    (hm : m ∈ neighbours x.ratio.1 x.ratio.2 (leadingPower x.ratio.1 x.ratio.2) count) :
    (digitsOf m).length ≤ count + 1 := by
  obtain ⟨-, hhigh⟩ := leadingPower_ratio hx h
  have hle := le_of_mem_neighbours hm
  rw [ratio_eq] at hle
  generalize leadingPower x.ratio.1 x.ratio.2 = power at *
  have hlt : x.magnitude * 10 ^ ((count : Int) - 1 - power) < 10 ^ count := by
    calc x.magnitude * 10 ^ ((count : Int) - 1 - power)
        < 10 ^ (power + 1) * 10 ^ ((count : Int) - 1 - power) := by gcongr
      _ = 10 ^ count := by
          rw [← zpow_add₀ (by norm_num), ← zpow_natCast]
          congr 1
          ring
  have hone : (1 : ℚ) ≤ 10 ^ count := one_le_pow₀ (by norm_num)
  rw [length_digitsOf_le (Nat.succ_pos count)]
  have : (m : ℚ) < 10 ^ (count + 1) := by
    rw [pow_succ]
    linarith
  exact_mod_cast this

theorem spells_go (hx : x.isFinite) (h : ¬ x.isZero) {fuel : Nat} (hfuel : fuel + count = 17) :
    let s := shortest.go x x.ratio.1 x.ratio.2 (leadingPower x.ratio.1 x.ratio.2) fuel count
    Spells x s.digits s.power := by
  obtain ⟨hlow, hhigh⟩ := leadingPower_bounds hx h
  induction fuel generalizing count with
  | zero =>
    obtain rfl : count = 17 := by omega
    obtain ⟨m, hm⟩ : ∃ m, (neighbours x.ratio.1 x.ratio.2 (leadingPower x.ratio.1 x.ratio.2) 17).head? =
        some m := by
      rw [neighbours_eq]
      dsimp only
      split <;> exact ⟨_, rfl⟩
    have hlength := length_neighbour hx h (List.mem_of_head? hm)
    rw [shortest.go, List.headD_eq_head?_getD, hm]
    exact spells_decimal h (by simpa [sub_add] using ofDecimal_nearest hx h hm) (by omega) (by simp; omega)
  | succ fuel ih =>
    rw [shortest.go]
    dsimp only
    split
    · next m hm =>
      have hlength := length_neighbour hx h (List.mem_of_find?_eq_some hm)
      have hvalue := List.find?_some hm
      exact spells_decimal h (by simpa using hvalue) (by omega) (by omega)
    · exact ih (by omega)

theorem spells_shortest (hx : x.isFinite) (h : ¬ x.isZero) :
    Spells x x.shortest.digits x.shortest.power :=
  spells_go hx h (show 16 + 1 = 17 from rfl)

end Shortest

end Polyglot.Binary64
