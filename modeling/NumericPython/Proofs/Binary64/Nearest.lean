import NumericPython.Binary64.Read
import NumericPython.Binary64.Shortest
import Mathlib.Algebra.Order.Field.Power
import Mathlib.Data.Rat.Floor
import Mathlib.Tactic.FieldSimp
import Mathlib.Tactic.Linarith
import Mathlib.Tactic.Positivity
import Mathlib.Tactic.Ring

set_option autoImplicit false

namespace NumericPython.Binary64

def reachBelow (magnitude : Nat) : Nat :=
  if isBinadeStart magnitude then 1 else 2

/-- A rational number in the rounding interval of a finite magnitude. -/
def RoundsTo (magnitude : Nat) (v : ℚ) : Prop :=
  let s := significand magnitude
  let unit : ℚ := 2 ^ (exponent magnitude - 2)
  (((4 * s - reachBelow magnitude : Nat) : ℚ) * unit < v ∧ v < ((4 * s + 2 : Nat) : ℚ) * unit) ∨
    (s % 2 = 0 ∧ ((4 * s - reachBelow magnitude : Nat) : ℚ) * unit ≤ v ∧
      v ≤ ((4 * s + 2 : Nat) : ℚ) * unit)

section Significand

variable {magnitude : Nat}

theorem significand_lt (magnitude : Nat) : significand magnitude < 2 * binadeSize := by
  have positive : 0 < binadeSize := by decide
  unfold significand
  split
  · omega
  · have := Nat.mod_lt magnitude positive
    omega

theorem exponent_ge (magnitude : Nat) : -1074 ≤ exponent magnitude := by
  unfold exponent
  split
  · omega
  next large =>
    have := Nat.div_pos (Nat.le_of_not_lt large) (by decide)
    omega

theorem magnitude_eq (magnitude : Nat) :
    magnitude = (exponent magnitude + 1074).toNat * binadeSize + significand magnitude := by
  unfold exponent significand
  split
  · simp
  next large =>
    have positive := Nat.div_pos (Nat.le_of_not_lt large) (by decide)
    have whole := Nat.div_add_mod magnitude binadeSize
    obtain ⟨k, same⟩ : ∃ k, magnitude / binadeSize = k + 1 := ⟨_, (Nat.sub_add_cancel positive).symm⟩
    have shift : (((magnitude / binadeSize : Nat) : Int) - 1075 + 1074).toNat = k := by omega
    rw [shift]
    rw [same, Nat.mul_add, Nat.mul_comm] at whole
    omega

theorem significand_ge (normal : -1074 < exponent magnitude) : binadeSize ≤ significand magnitude := by
  unfold exponent at normal
  unfold significand
  split at normal
  · omega
  next large =>
    rw [if_neg large]
    omega

theorem isBinadeStart_iff :
    isBinadeStart magnitude = true ↔
      significand magnitude = binadeSize ∧ -1074 < exponent magnitude := by
  have positive : 0 < binadeSize := by decide
  rw [isBinadeStart, Bool.and_eq_true, beq_iff_eq, decide_eq_true_eq]
  unfold significand exponent
  by_cases small : magnitude < binadeSize
  · simp only [small, if_true]
    omega
  · simp only [small, if_false]
    have whole := Nat.div_add_mod magnitude binadeSize
    have quotient := Nat.div_pos (Nat.le_of_not_lt small) positive
    constructor
    · rintro ⟨rest, larger⟩
      have two : 2 ≤ magnitude / binadeSize := by
        by_contra few
        have one : magnitude / binadeSize = 1 := by omega
        rw [rest, one] at whole
        omega
      omega
    · rintro ⟨rest, larger⟩
      have none : magnitude % binadeSize = 0 := by omega
      refine ⟨none, ?_⟩
      have two : 2 ≤ magnitude / binadeSize := by omega
      have := Nat.mul_le_mul_left binadeSize two
      omega

theorem significand_pos (nonzero : magnitude ≠ 0) : 0 < significand magnitude := by
  have positive : 0 < binadeSize := by decide
  unfold significand
  split
  · omega
  · omega

theorem one_binade : ((binadeSize : Nat) : ℚ) = 2 ^ (52 : Int) := by
  norm_num [binadeSize]

theorem two_binades : ((2 * binadeSize : Nat) : ℚ) = 2 ^ (53 : Int) := by
  norm_num [binadeSize]

theorem reachBelow_le (magnitude : Nat) : (reachBelow magnitude : ℚ) ≤ 2 := by
  unfold reachBelow
  split <;> norm_num

theorem one_le_reachBelow (magnitude : Nat) : (1 : ℚ) ≤ reachBelow magnitude := by
  unfold reachBelow
  split <;> norm_num

theorem reachBelow_le_significand (nonzero : magnitude ≠ 0) :
    reachBelow magnitude ≤ 4 * significand magnitude := by
  have positive := significand_pos nonzero
  unfold reachBelow
  split <;> omega

end Significand

section Scale

variable {v : ℚ} {e k : Int}

theorem rescaled (v : ℚ) (e : Int) : v * 2 ^ (-e) * 2 ^ e = v := by
  rw [mul_assoc, ← zpow_add₀ (by norm_num), neg_add_cancel, zpow_zero, mul_one]

theorem scaled_lt_iff : v * 2 ^ (-e) < 2 ^ k ↔ v < 2 ^ (e + k) := by
  have unit : (0 : ℚ) < 2 ^ e := by positivity
  rw [← mul_lt_mul_iff_of_pos_right unit, rescaled, ← zpow_add₀ (by norm_num), add_comm]

theorem lt_scaled_iff : 2 ^ k < v * 2 ^ (-e) ↔ 2 ^ (e + k) < v := by
  have unit : (0 : ℚ) < 2 ^ e := by positivity
  rw [← mul_lt_mul_iff_of_pos_right unit, rescaled, ← zpow_add₀ (by norm_num), add_comm]

theorem le_scaled_iff : 2 ^ k ≤ v * 2 ^ (-e) ↔ 2 ^ (e + k) ≤ v := by
  have unit : (0 : ℚ) < 2 ^ e := by positivity
  rw [← mul_le_mul_iff_of_pos_right unit, rescaled, ← zpow_add₀ (by norm_num), add_comm]

end Scale

section Quotient

theorem roundQuotient_eq {num den r : Nat} (positive : 0 < den)
    (near : (2 * r * den < 2 * num + den ∧ 2 * num < 2 * r * den + den) ∨
      (r % 2 = 0 ∧ 2 * r * den ≤ 2 * num + den ∧ 2 * num ≤ 2 * r * den + den)) :
    roundQuotient num den = r := by
  have whole := Nat.div_add_mod num den
  have rest := Nat.mod_lt num positive
  obtain ⟨q, quotient⟩ : ∃ q, num / den = q := ⟨_, rfl⟩
  obtain ⟨m, remainder⟩ : ∃ m, num % den = m := ⟨_, rfl⟩
  rw [quotient, remainder] at whole
  rw [remainder] at rest
  -- The number is the quotient or the one above it, told apart by the remainder.
  have upper : q ≤ r := by
    by_contra above
    have next := Nat.mul_le_mul_left den (Nat.lt_of_not_le above)
    rw [Nat.mul_succ] at next
    have : 2 * r * den = 2 * (den * r) := by ring
    omega
  have lower : r ≤ q + 1 := by
    by_contra below
    have next := Nat.mul_le_mul_left den (Nat.lt_of_not_le below)
    rw [Nat.mul_succ, Nat.mul_succ] at next
    have : 2 * r * den = 2 * (den * r) := by ring
    omega
  have cases : r = q ∨ r = q + 1 := by omega
  simp only [roundQuotient, quotient, remainder, beq_iff_eq]
  rcases cases with rfl | rfl
  · have : 2 * r * den = 2 * (den * r) := by ring
    have half : 2 * m ≤ den := by omega
    have tie : 2 * m = den → r % 2 = 0 := by omega
    split
    · rfl
    · rw [if_neg (by omega), if_pos (tie (by omega))]
  · have : 2 * (q + 1) * den = 2 * (den * q) + 2 * den := by ring
    have half : den ≤ 2 * m := by omega
    have tie : 2 * m = den → (q + 1) % 2 = 0 := by omega
    rw [if_neg (by omega)]
    split
    · rfl
    · rw [if_neg]
      have := tie (by omega)
      omega

theorem scaledBy_pos {den : Nat} (e : Int) (num : Nat) (positive : 0 < den) :
    0 < (scaledBy e num den).2 :=
  Nat.mul_pos positive (Nat.pow_pos (by decide))

theorem powerRatio_eq (base : Nat) (positive : 0 < base) (e : Int) :
    ((powerRatio base e).1 : ℚ) / (powerRatio base e).2 = (base : ℚ) ^ e := by
  have nonzero : (base : ℚ) ≠ 0 := by positivity
  simp only [powerRatio, Nat.pow_eq]
  push_cast
  rcases Int.le_total 0 e with up | down
  · have none : (-e).toNat = 0 := by omega
    have some : ((e.toNat : Nat) : Int) = e := Int.toNat_of_nonneg up
    rw [none, pow_zero, div_one, ← zpow_natCast, some]
  · have none : e.toNat = 0 := by omega
    have some : (((-e).toNat : Nat) : Int) = -e := Int.toNat_of_nonneg (by omega)
    rw [none, pow_zero, ← zpow_natCast, some, zpow_neg, one_div, inv_inv]

theorem two_pow_toNat (e : Int) : ((2 : ℚ) ^ (-e).toNat) / 2 ^ e.toNat = 2 ^ (-e) := by
  simpa [powerRatio] using powerRatio_eq 2 (by decide) (-e)

theorem scaledBy_ratio {den : Nat} (e : Int) (num : Nat) (positive : 0 < den) :
    ((scaledBy e num den).1 : ℚ) = (num / den : ℚ) * 2 ^ (-e) * (scaledBy e num den).2 := by
  have nonzero : (den : ℚ) ≠ 0 := by positivity
  have power : ((2 : ℚ) ^ e.toNat) ≠ 0 := by positivity
  rw [← two_pow_toNat]
  simp only [scaledBy, Nat.pow_eq]
  push_cast
  field_simp

theorem scaledBy_quotient {den : Nat} (e : Int) (num : Nat) (positive : 0 < den) :
    ((scaledBy e num den).1 / (scaledBy e num den).2 : ℚ) = (num / den : ℚ) * 2 ^ (-e) := by
  have scale : ((scaledBy e num den).2 : ℚ) ≠ 0 :=
    Nat.cast_ne_zero.2 (Nat.ne_of_gt (scaledBy_pos e num positive))
  rw [scaledBy_ratio e num positive, mul_div_cancel_right₀ _ scale]

theorem two_binades_le_div_iff {num den : Nat} (positive : 0 < den) :
    2 * binadeSize ≤ num / den ↔ (2 : ℚ) ^ (53 : Int) ≤ num / den := by
  -- A quotient is cut off below the next whole number, and so has its 53 bits only if it is as
  -- large.
  have den_cast : (0 : ℚ) < den := by exact_mod_cast positive
  rw [Nat.le_div_iff_mul_le positive, le_div_iff₀ den_cast, ← two_binades]
  norm_cast

end Quotient

section Exponent

variable {num den : Nat}

theorem ratio_bounds (num_pos : 0 < num) (den_pos : 0 < den) :
    (2 : ℚ) ^ ((Nat.log2 num : Int) - Nat.log2 den - 1) < num / den ∧
      (num / den : ℚ) < 2 ^ ((Nat.log2 num : Int) - Nat.log2 den + 1) := by
  have num_low : (2 : ℚ) ^ Nat.log2 num ≤ num := by
    exact_mod_cast Nat.log2_self_le (by omega)
  have num_high : (num : ℚ) < 2 ^ (Nat.log2 num + 1) := by
    exact_mod_cast Nat.lt_log2_self
  have den_low : (2 : ℚ) ^ Nat.log2 den ≤ den := by
    exact_mod_cast Nat.log2_self_le (by omega)
  have den_high : (den : ℚ) < 2 ^ (Nat.log2 den + 1) := by
    exact_mod_cast Nat.lt_log2_self
  have den_cast : (0 : ℚ) < den := by exact_mod_cast den_pos
  constructor
  · rw [lt_div_iff₀ den_cast]
    calc (2 : ℚ) ^ ((Nat.log2 num : Int) - Nat.log2 den - 1) * den
        < 2 ^ ((Nat.log2 num : Int) - Nat.log2 den - 1) * 2 ^ (Nat.log2 den + 1) := by gcongr
      _ = 2 ^ Nat.log2 num := by
        rw [← zpow_natCast, ← zpow_natCast, ← zpow_add₀ (by norm_num)]
        congr 1
        push_cast
        ring
      _ ≤ num := num_low
  · rw [div_lt_iff₀ den_cast]
    calc (num : ℚ) < 2 ^ (Nat.log2 num + 1) := num_high
      _ = 2 ^ ((Nat.log2 num : Int) - Nat.log2 den + 1) * 2 ^ Nat.log2 den := by
        rw [← zpow_natCast, ← zpow_natCast, ← zpow_add₀ (by norm_num)]
        congr 1
        push_cast
        ring
      _ ≤ 2 ^ ((Nat.log2 num : Int) - Nat.log2 den + 1) * den := by gcongr

theorem exponentOf_spec (num_pos : 0 < num) (den_pos : 0 < den) :
    -1074 ≤ exponentOf num den ∧ (num / den : ℚ) < 2 ^ (exponentOf num den + 53) ∧
      ((2 : ℚ) ^ (exponentOf num den + 52) ≤ num / den ∨ exponentOf num den = -1074) := by
  obtain ⟨lower, upper⟩ := ratio_bounds num_pos den_pos
  obtain ⟨low, least⟩ :
      ∃ low, max ((Nat.log2 num : Int) - Nat.log2 den - 53) (-1074) = low := ⟨_, rfl⟩
  have unfolded : exponentOf num den =
      if 2 * binadeSize ≤ (scaledBy low num den).1 / (scaledBy low num den).2 then low + 1
      else low := by
    rw [← least]
    rfl
  have long_iff := @two_binades_le_div_iff (scaledBy low num den).1 _
    (scaledBy_pos low num den_pos)
  rw [scaledBy_quotient low num den_pos] at long_iff
  rw [unfolded]
  split
  next long =>
    refine ⟨by omega, ?_, .inl ?_⟩
    · refine lt_of_lt_of_le upper (zpow_le_zpow_right₀ (by norm_num) ?_)
      omega
    · have shift : low + 1 + 52 = low + 53 := by ring
      rw [shift]
      exact le_scaled_iff.1 (long_iff.1 long)
  next short =>
    refine ⟨by omega, scaled_lt_iff.1 (not_le.1 (mt long_iff.2 short)), ?_⟩
    -- Unless the least exponent is the larger one, the logarithms leave enough bits.
    rcases Int.le_total (-1074) ((Nat.log2 num : Int) - Nat.log2 den - 53) with above | below
    · left
      refine le_trans (zpow_le_zpow_right₀ (by norm_num) ?_) (le_of_lt lower)
      omega
    · right
      omega

end Exponent

section Nearest

variable {magnitude num den : Nat} {v : ℚ}

theorem RoundsTo.bounds (rounds : RoundsTo magnitude v) (nonzero : magnitude ≠ 0) :
    let w := v * 2 ^ (-exponent magnitude)
    let s : ℚ := significand magnitude
    s - reachBelow magnitude / 4 ≤ w ∧ w ≤ s + 1 / 2 ∧
      ((s - reachBelow magnitude / 4 < w ∧ w < s + 1 / 2) ∨ significand magnitude % 2 = 0) := by
  intro w s
  have reach := reachBelow_le_significand nonzero
  have unit : (2 : ℚ) ^ (exponent magnitude - 2) = 2 ^ exponent magnitude / 4 := by
    rw [zpow_sub₀ (by norm_num)]
    norm_num
  have power : (0 : ℚ) < 2 ^ exponent magnitude := by positivity
  have value : v = w * 2 ^ exponent magnitude := (rescaled v (exponent magnitude)).symm
  simp only [RoundsTo, unit, Nat.cast_sub reach] at rounds
  push_cast at rounds
  rw [value] at rounds
  have lower : (4 * (significand magnitude : ℚ) - reachBelow magnitude) *
      (2 ^ exponent magnitude / 4) = (s - reachBelow magnitude / 4) * 2 ^ exponent magnitude := by
    ring
  have upper : (4 * (significand magnitude : ℚ) + 2) * (2 ^ exponent magnitude / 4) =
      (s + 1 / 2) * 2 ^ exponent magnitude := by
    ring
  rw [lower, upper, mul_lt_mul_iff_of_pos_right power, mul_lt_mul_iff_of_pos_right power,
    mul_le_mul_iff_of_pos_right power, mul_le_mul_iff_of_pos_right power] at rounds
  rcases rounds with ⟨below, above⟩ | ⟨even, below, above⟩
  · exact ⟨le_of_lt below, le_of_lt above, .inl ⟨below, above⟩⟩
  · exact ⟨below, above, .inr even⟩

theorem roundQuotient_scaled {e : Int} {r : Nat} (den_pos : 0 < den)
    (lower : (r : ℚ) - 1 / 2 ≤ (num / den : ℚ) * 2 ^ (-e))
    (upper : (num / den : ℚ) * 2 ^ (-e) ≤ r + 1 / 2)
    (strict : ((r : ℚ) - 1 / 2 < (num / den : ℚ) * 2 ^ (-e) ∧
      (num / den : ℚ) * 2 ^ (-e) < r + 1 / 2) ∨ r % 2 = 0) :
    roundQuotient (scaledBy e num den).1 (scaledBy e num den).2 = r := by
  have ratio := scaledBy_ratio e num den_pos
  have scale := scaledBy_pos e num den_pos
  obtain ⟨n, top⟩ : ∃ n, (scaledBy e num den).1 = n := ⟨_, rfl⟩
  obtain ⟨d, bottom⟩ : ∃ d, (scaledBy e num den).2 = d := ⟨_, rfl⟩
  rw [top, bottom] at ratio ⊢
  rw [bottom] at scale
  have scale_cast : (0 : ℚ) < d := by exact_mod_cast scale
  refine roundQuotient_eq scale ?_
  rcases strict with ⟨below, above⟩ | even
  · left
    constructor
    · have : (2 * r * d : ℚ) < 2 * n + d := by
        rw [ratio]
        nlinarith
      exact_mod_cast this
    · have : (2 * n : ℚ) < 2 * r * d + d := by
        rw [ratio]
        nlinarith
      exact_mod_cast this
  · refine .inr ⟨even, ?_, ?_⟩
    · have : (2 * r * d : ℚ) ≤ 2 * n + d := by
        rw [ratio]
        nlinarith
      exact_mod_cast this
    · have : (2 * n : ℚ) ≤ 2 * r * d + d := by
        rw [ratio]
        nlinarith
      exact_mod_cast this

theorem RoundsTo.scaled_lt (rounds : RoundsTo magnitude v) (nonzero : magnitude ≠ 0) :
    v * 2 ^ (-exponent magnitude) < 2 ^ (53 : Int) := by
  obtain ⟨_, upper, _⟩ := rounds.bounds nonzero
  have next : ((significand magnitude + 1 : Nat) : ℚ) ≤ (2 * binadeSize : Nat) := by
    exact_mod_cast significand_lt magnitude
  rw [two_binades] at next
  push_cast at next
  linarith

theorem RoundsTo.isBinadeStart (rounds : RoundsTo magnitude v) (nonzero : magnitude ≠ 0)
    (normal : -1074 < exponent magnitude)
    (low : v * 2 ^ (-exponent magnitude) < 2 ^ (52 : Int)) : isBinadeStart magnitude = true := by
  obtain ⟨lower, _, _⟩ := rounds.bounds nonzero
  rw [isBinadeStart_iff]
  refine ⟨?_, normal⟩
  by_contra other
  have more : ((binadeSize + 1 : Nat) : ℚ) ≤ significand magnitude := by
    exact_mod_cast Nat.lt_of_le_of_ne (significand_ge normal) (Ne.symm other)
  have reach := reachBelow_le magnitude
  push_cast at more
  rw [one_binade] at more
  linarith

theorem RoundsTo.start_le (rounds : RoundsTo magnitude v) (nonzero : magnitude ≠ 0)
    (start : Binary64.isBinadeStart magnitude = true) :
    2 ^ (52 : Int) - 1 / 4 ≤ v * 2 ^ (-exponent magnitude) := by
  -- Below a power of two the numbers lie twice as close.
  obtain ⟨lower, _, _⟩ := rounds.bounds nonzero
  have reach : (reachBelow magnitude : ℚ) = 1 := by simp [reachBelow, start]
  rwa [reach, (isBinadeStart_iff.1 start).1, one_binade] at lower

theorem exponentOf_le (num_pos : 0 < num) (den_pos : 0 < den) (nonzero : magnitude ≠ 0)
    (rounds : RoundsTo magnitude (num / den)) : exponentOf num den ≤ exponent magnitude := by
  obtain ⟨_, _, above⟩ := exponentOf_spec num_pos den_pos
  have high := scaled_lt_iff.1 (rounds.scaled_lt nonzero)
  rcases above with above | least
  · have := (zpow_lt_zpow_iff_right₀ (by norm_num)).1 (lt_of_le_of_lt above high)
    omega
  · rw [least]
    exact exponent_ge magnitude

theorem exponentOf_cases (num_pos : 0 < num) (den_pos : 0 < den) (nonzero : magnitude ≠ 0)
    (rounds : RoundsTo magnitude (num / den)) :
    exponentOf num den = exponent magnitude ∨
      (isBinadeStart magnitude = true ∧ exponentOf num den = exponent magnitude - 1 ∧
        (num / den : ℚ) < 2 ^ (exponent magnitude + 52)) := by
  obtain ⟨least, below, above⟩ := exponentOf_spec num_pos den_pos
  have least' := exponent_ge magnitude
  have notAbove := exponentOf_le num_pos den_pos nonzero rounds
  by_cases low : (num / den : ℚ) < 2 ^ (exponent magnitude + 52) ∧ -1074 < exponent magnitude
  · right
    obtain ⟨low, normal⟩ := low
    have start := rounds.isBinadeStart nonzero normal (scaled_lt_iff.2 low)
    refine ⟨start, ?_, low⟩
    have near := rounds.start_le nonzero start
    have enough : (2 : ℚ) ^ (exponent magnitude + 51) < num / den := by
      refine lt_scaled_iff.1 (lt_of_lt_of_le ?_ near)
      norm_num
    have notBelow := (zpow_lt_zpow_iff_right₀ (by norm_num)).1 (lt_trans enough below)
    have notSame : exponentOf num den ≠ exponent magnitude := by
      intro same
      rw [same] at above
      rcases above with above | least''
      · exact absurd low (not_lt.2 above)
      · omega
    omega
  · left
    rw [not_and_or, not_lt] at low
    rcases low with low | least''
    · have := (zpow_lt_zpow_iff_right₀ (by norm_num)).1 (lt_of_le_of_lt low below)
      omega
    · omega

theorem carry_into_exponent {k size word : Nat} (full : word = k * size + size + size) :
    k * size + 2 * size = word := by
  omega

theorem nearestMagnitude_of_same (den_pos : 0 < den) (nonzero : magnitude ≠ 0)
    (finite : magnitude < infinityMagnitude) (rounds : RoundsTo magnitude (num / den))
    (same : exponentOf num den = exponent magnitude) : nearestMagnitude num den = magnitude := by
  obtain ⟨lower, upper, strict⟩ := rounds.bounds nonzero
  have word := magnitude_eq magnitude
  have reach := reachBelow_le magnitude
  have rounded : roundQuotient (scaledBy (exponent magnitude) num den).1
      (scaledBy (exponent magnitude) num den).2 = significand magnitude := by
    refine roundQuotient_scaled den_pos (by linarith) upper ?_
    exact strict.imp_left fun inside => ⟨by linarith [inside.1], inside.2⟩
  unfold nearestMagnitude
  rw [same]
  simp only [rounded]
  omega

theorem nearestMagnitude_of_before (den_pos : 0 < den) (nonzero : magnitude ≠ 0)
    (finite : magnitude < infinityMagnitude) (rounds : RoundsTo magnitude (num / den))
    (start : isBinadeStart magnitude = true) (before : exponentOf num den = exponent magnitude - 1)
    (low : (num / den : ℚ) < 2 ^ (exponent magnitude + 52)) :
    nearestMagnitude num den = magnitude := by
  -- Just below a power of two the significand rounds up to the next power.
  have near := rounds.start_le nonzero start
  have scaled := scaled_lt_iff.2 low
  have twice : (num / den : ℚ) * 2 ^ (-(exponent magnitude - 1)) =
      2 * ((num / den : ℚ) * 2 ^ (-exponent magnitude)) := by
    rw [neg_sub, sub_eq_add_neg, zpow_add₀ (by norm_num), zpow_one]
    ring
  have carry : ((2 * binadeSize : Nat) : ℚ) = 2 * 2 ^ (52 : Int) := by norm_num [binadeSize]
  have rounded : roundQuotient (scaledBy (exponent magnitude - 1) num den).1
      (scaledBy (exponent magnitude - 1) num den).2 = 2 * binadeSize := by
    refine roundQuotient_scaled den_pos ?_ ?_ (.inr (by decide))
    · rw [twice, carry]
      linarith
    · rw [twice, carry]
      linarith
  -- The word counts the exponent from the least one, which is not that of a power of two.
  have word := magnitude_eq magnitude
  obtain ⟨least, normal⟩ := isBinadeStart_iff.1 start
  obtain ⟨k, above⟩ : ∃ k, (exponent magnitude + 1074).toNat = k + 1 :=
    ⟨(exponent magnitude + 1074).toNat - 1, by omega⟩
  have below : (exponent magnitude - 1 + 1074).toNat = k := by omega
  rw [above, Nat.succ_mul, least] at word
  unfold nearestMagnitude
  rw [before]
  simp only [rounded, below]
  rw [carry_into_exponent word]
  exact Nat.min_eq_left (Nat.le_of_lt finite)

theorem nearestMagnitude_eq (num_pos : 0 < num) (den_pos : 0 < den) (nonzero : magnitude ≠ 0)
    (finite : magnitude < infinityMagnitude) (rounds : RoundsTo magnitude (num / den)) :
    nearestMagnitude num den = magnitude := by
  rcases exponentOf_cases num_pos den_pos nonzero rounds with same | ⟨start, before, low⟩
  · exact nearestMagnitude_of_same den_pos nonzero finite rounds same
  · exact nearestMagnitude_of_before den_pos nonzero finite rounds start before low

end Nearest

section Decimal

variable {magnitude digits : Nat} {e : Int}

theorem RoundsTo.pos {v : ℚ} (rounds : RoundsTo magnitude v) (nonzero : magnitude ≠ 0) : 0 < v := by
  obtain ⟨lower, _, _⟩ := rounds.bounds nonzero
  have one : (1 : ℚ) ≤ significand magnitude := by exact_mod_cast significand_pos nonzero
  have reach := reachBelow_le magnitude
  have scaled : 0 < v * 2 ^ (-exponent magnitude) := by linarith
  exact (mul_pos_iff_of_pos_right (by positivity)).1 scaled

theorem exponent_le (finite : magnitude < infinityMagnitude) : exponent magnitude ≤ 971 := by
  have bound : magnitude / binadeSize < 2047 := by
    rw [Nat.div_lt_iff_lt_mul (by decide)]
    exact finite
  unfold exponent
  split <;> omega

theorem two_pow_lt_ten_pow : (2 : ℚ) ^ (1075 : Int) < 10 ^ (400 : Int) := by
  have whole : 2 ^ 1075 < 10 ^ 400 := by decide +kernel
  exact_mod_cast whole

theorem RoundsTo.range {v : ℚ} (rounds : RoundsTo magnitude v) (nonzero : magnitude ≠ 0)
    (finite : magnitude < infinityMagnitude) :
    (10 : ℚ) ^ (-400 : Int) < v ∧ v < 10 ^ (400 : Int) := by
  obtain ⟨lower, _, _⟩ := rounds.bounds nonzero
  have one : (1 : ℚ) ≤ significand magnitude := by exact_mod_cast significand_pos nonzero
  have reach := reachBelow_le magnitude
  have value := (rescaled v (exponent magnitude)).symm
  constructor
  · have least : (2 : ℚ) ^ (-1074 : Int) ≤ 2 ^ exponent magnitude :=
      zpow_le_zpow_right₀ (by norm_num) (exponent_ge magnitude)
    have half : (1 / 2 : ℚ) ≤ v * 2 ^ (-exponent magnitude) := by linarith
    calc (10 : ℚ) ^ (-400 : Int) < 2 ^ (-1075 : Int) := by
          rw [zpow_neg, zpow_neg]
          exact inv_strictAnti₀ (by positivity) two_pow_lt_ten_pow
      _ = 1 / 2 * 2 ^ (-1074 : Int) := by
          have shift : (-1075 : Int) = -1 + -1074 := by norm_num
          rw [shift, zpow_add₀ (by norm_num), zpow_neg_one, one_div]
      _ ≤ v * 2 ^ (-exponent magnitude) * 2 ^ exponent magnitude := by gcongr
      _ = v := value.symm
  · have most : (2 : ℚ) ^ exponent magnitude ≤ 2 ^ (971 : Int) :=
      zpow_le_zpow_right₀ (by norm_num) (exponent_le finite)
    have scaled := le_of_lt (rounds.scaled_lt nonzero)
    calc v = v * 2 ^ (-exponent magnitude) * 2 ^ exponent magnitude := value
      _ ≤ 2 ^ (53 : Int) * 2 ^ (971 : Int) := by gcongr
      _ ≤ 2 ^ (1075 : Int) := by
          rw [← zpow_add₀ (by norm_num)]
          exact zpow_le_zpow_right₀ (by norm_num) (by norm_num)
      _ < 10 ^ (400 : Int) := two_pow_lt_ten_pow

theorem length_toDigits_bounds (positive : 0 < digits) :
    (10 : ℚ) ^ (((Nat.toDigits 10 digits).length : Int) - 1) ≤ digits ∧
      (digits : ℚ) < 10 ^ ((Nat.toDigits 10 digits).length : Int) := by
  obtain ⟨k, length⟩ : ∃ k, (Nat.toDigits 10 digits).length = k + 1 :=
    ⟨_, (Nat.sub_add_cancel Nat.length_toDigits_pos).symm⟩
  rw [length]
  constructor
  · have lower : 10 ^ k ≤ digits := by
      rcases Nat.eq_zero_or_pos k with rfl | more
      · exact positive
      · by_contra few
        have := (Nat.length_toDigits_le_iff (by decide) more).2 (Nat.lt_of_not_le few)
        omega
    have shift : (((k + 1 : Nat) : Int) - 1) = k := by omega
    rw [shift, zpow_natCast]
    exact_mod_cast lower
  · have upper : digits < 10 ^ (k + 1) :=
      (Nat.length_toDigits_le_iff (by decide) (Nat.succ_pos k)).1 (Nat.le_of_eq length)
    rw [zpow_natCast]
    exact_mod_cast upper

/-- A decimal in the rounding interval of a number is read as that number. -/
theorem magnitudeOfDecimal_eq (nonzero : magnitude ≠ 0) (finite : magnitude < infinityMagnitude)
    (rounds : RoundsTo magnitude (digits * 10 ^ e)) : magnitudeOfDecimal digits e = magnitude := by
  have power : (0 : ℚ) < 10 ^ e := by positivity
  have some_digits : digits ≠ 0 := by
    rintro rfl
    have := rounds.pos nonzero
    simp at this
  obtain ⟨tiny, huge⟩ := rounds.range nonzero finite
  obtain ⟨lower, upper⟩ := length_toDigits_bounds (Nat.pos_of_ne_zero some_digits)
  -- The range of the finite numbers bounds the exponent, so neither early answer is given.
  have notHuge : e + ((Nat.toDigits 10 digits).length : Int) ≤ 400 := by
    have bound : (10 : ℚ) ^ (((Nat.toDigits 10 digits).length : Int) - 1 + e) < 10 ^ (400 : Int) := by
      rw [zpow_add₀ (by norm_num)]
      refine lt_of_le_of_lt ?_ huge
      gcongr
    have := (zpow_lt_zpow_iff_right₀ (by norm_num)).1 bound
    omega
  have notTiny : -400 ≤ e + ((Nat.toDigits 10 digits).length : Int) := by
    have bound : (10 : ℚ) ^ (-400 : Int) < 10 ^ (((Nat.toDigits 10 digits).length : Int) + e) := by
      rw [zpow_add₀ (by norm_num)]
      refine lt_trans tiny ?_
      gcongr
    have := (zpow_lt_zpow_iff_right₀ (by norm_num)).1 bound
    omega
  have den_pos : 0 < Nat.pow 10 (-e).toNat := Nat.pow_pos (by decide)
  have num_pos : 0 < digits * Nat.pow 10 e.toNat :=
    Nat.mul_pos (Nat.pos_of_ne_zero some_digits) (Nat.pow_pos (by decide))
  have ratio : ((digits * Nat.pow 10 e.toNat : Nat) : ℚ) / (Nat.pow 10 (-e).toNat : Nat) =
      digits * 10 ^ e := by
    have tens := powerRatio_eq 10 (by decide) e
    simp only [powerRatio] at tens
    rw [Nat.cast_mul, mul_div_assoc, tens]
    norm_num
  unfold magnitudeOfDecimal
  rw [if_neg some_digits]
  simp only
  rw [if_neg (by omega), if_neg (by omega)]
  refine nearestMagnitude_eq num_pos den_pos nonzero finite ?_
  rwa [ratio]

end Decimal

end NumericPython.Binary64
