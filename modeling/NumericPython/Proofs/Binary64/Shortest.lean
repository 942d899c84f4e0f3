import NumericPython.Proofs.Binary64.Nearest
import Mathlib.Tactic.NormNum

set_option autoImplicit false

namespace NumericPython.Binary64

section Grid

variable {tie : Tie} {range : Interval} {e : Int} {digits : Nat}

def Interval.onGrid (range : Interval) (e : Int) : Interval :=
  { range with
    low := range.low * (powerRatio 10 e).2
    value := range.value * (powerRatio 10 e).2
    high := range.high * (powerRatio 10 e).2 }

def gridStep (range : Interval) (e : Int) : Nat :=
  (powerRatio 10 e).1 * range.scale

theorem contains_of_pointOnGrid (found : pointOnGrid? tie range e = some digits) :
    (range.onGrid e).contains (digits * gridStep range e) = true := by
  simp only [pointOnGrid?] at found
  have below_at : ({ range with
      low := range.low * (powerRatio 10 e).2
      value := range.value * (powerRatio 10 e).2
      high := range.high * (powerRatio 10 e).2 } : Interval) = range.onGrid e := rfl
  have step : (powerRatio 10 e).1 * range.scale = gridStep range e := rfl
  rw [below_at, step] at found
  split at found
  next below above =>
    split at found
    · exact Option.some.inj found ▸ below
    · split at found
      · exact Option.some.inj found ▸ above
      · cases tie with
        | up => exact Option.some.inj found ▸ above
        | even =>
            simp only [Option.some.injEq] at found
            split at found
            · exact found ▸ below
            · exact found ▸ above
  next below above => exact Option.some.inj found ▸ below
  next below above => exact Option.some.inj found ▸ above
  next => cases found

theorem outside_of_no_point (none : pointOnGrid? tie range e = none) :
    let below := (range.onGrid e).value / gridStep range e
    (range.onGrid e).contains (below * gridStep range e) = false ∧
      (range.onGrid e).contains ((below + 1) * gridStep range e) = false := by
  intro below
  simp only [pointOnGrid?] at none
  have interval : ({ range with
      low := range.low * (powerRatio 10 e).2
      value := range.value * (powerRatio 10 e).2
      high := range.high * (powerRatio 10 e).2 } : Interval) = range.onGrid e := rfl
  have step : (powerRatio 10 e).1 * range.scale = gridStep range e := rfl
  have value : range.value * (powerRatio 10 e).2 / gridStep range e = below := rfl
  rw [interval, step, value] at none
  split at none
  next =>
    split at none
    · cases none
    · split at none
      · cases none
      · cases tie <;> cases none
  next => cases none
  next => cases none
  next outside outside' => exact ⟨outside, outside'⟩

end Grid

section Ratio

theorem powerRatio_pos {base : Nat} (positive : 0 < base) (e : Int) : 0 < (powerRatio base e).2 :=
  Nat.pow_pos positive

theorem powerRatio_le_iff {p q : Nat} (p_pos : 0 < p) (q_pos : 0 < q) (a b : Nat) (i j : Int) :
    a * (powerRatio p i).1 * (powerRatio q j).2 ≤ b * ((powerRatio q j).1 * (powerRatio p i).2) ↔
      (a : ℚ) * p ^ i ≤ b * q ^ j := by
  have first_pos : (0 : ℚ) < (powerRatio p i).2 := by exact_mod_cast powerRatio_pos p_pos i
  have second_pos : (0 : ℚ) < (powerRatio q j).2 := by exact_mod_cast powerRatio_pos q_pos j
  rw [← powerRatio_eq p p_pos i, ← powerRatio_eq q q_pos j, ← mul_div_assoc, ← mul_div_assoc,
    div_le_div_iff₀ first_pos second_pos, mul_assoc (b : ℚ)]
  exact_mod_cast Iff.rfl

variable {a b : Nat} (i j : Int)

theorem binary_le_decimal_iff :
    a * (powerRatio 2 i).1 * (powerRatio 10 j).2 ≤ b * ((powerRatio 10 j).1 * (powerRatio 2 i).2) ↔
      (a : ℚ) * 2 ^ i ≤ b * 10 ^ j :=
  powerRatio_le_iff (by decide) (by decide) a b i j

theorem decimal_le_binary_iff :
    b * ((powerRatio 10 j).1 * (powerRatio 2 i).2) ≤ a * (powerRatio 2 i).1 * (powerRatio 10 j).2 ↔
      (b : ℚ) * 10 ^ j ≤ a * 2 ^ i := by
  rw [← Nat.mul_assoc, Nat.mul_assoc a]
  exact powerRatio_le_iff (by decide) (by decide) b a j i

end Ratio

section Interval

variable {magnitude digits : Nat} {e : Int}

theorem contains_iff_roundsTo :
    ((roundingInterval magnitude).onGrid e).contains
        (digits * gridStep (roundingInterval magnitude) e) = true ↔
      RoundsTo magnitude (digits * 10 ^ e) := by
  have low := @binary_le_decimal_iff (4 * significand magnitude - reachBelow magnitude) digits
    (exponent magnitude - 2) e
  have high := @decimal_le_binary_iff (4 * significand magnitude + 2) digits
    (exponent magnitude - 2) e
  have strict := @binary_le_decimal_iff (4 * significand magnitude + 2) digits
    (exponent magnitude - 2) e
  have strict' := @decimal_le_binary_iff (4 * significand magnitude - reachBelow magnitude) digits
    (exponent magnitude - 2) e
  have inside := not_congr strict
  have inside' := not_congr strict'
  rw [Nat.not_le, not_le] at inside inside'
  have reach : (if isBinadeStart magnitude then 1 else 2) = reachBelow magnitude := rfl
  simp only [RoundsTo, Interval.contains, Interval.onGrid, gridStep, roundingInterval, reach]
  by_cases even : significand magnitude % 2 = 0
  · simp only [even, beq_self_eq_true, if_true, Bool.and_eq_true, decide_eq_true_eq, true_and]
    rw [low, high]
    exact ⟨.inr, fun either => either.elim (fun both => ⟨le_of_lt both.1, le_of_lt both.2⟩) id⟩
  · simp only [even, false_and, or_false]
    have odd : (significand magnitude % 2 == 0) = false := by simpa using even
    simp only [odd, Bool.false_eq_true, if_false, Bool.and_eq_true, decide_eq_true_eq]
    rw [inside', inside]

theorem value_eq (magnitude : Nat) :
    ((roundingInterval magnitude).value : ℚ) / (roundingInterval magnitude).scale =
      4 * significand magnitude * 2 ^ (exponent magnitude - 2) := by
  have two := powerRatio_eq 2 (by decide) (exponent magnitude - 2)
  push_cast at two
  rw [← two, ← mul_div_assoc]
  simp only [roundingInterval]
  push_cast
  ring

theorem scale_pos (magnitude : Nat) : 0 < (roundingInterval magnitude).scale :=
  powerRatio_pos (by decide) _

theorem leadingExponent_le {value scale : Nat} (value_pos : 0 < value) (scale_pos : 0 < scale) :
    (10 : ℚ) ^ leadingExponent value scale ≤ value / scale := by
  have scale_cast : (0 : ℚ) < scale := by exact_mod_cast scale_pos
  unfold leadingExponent digitCount
  split
  next whole =>
    have some : 0 < value / scale := Nat.div_pos whole scale_pos
    refine le_trans (length_toDigits_bounds some).1 ?_
    rw [le_div_iff₀ scale_cast]
    exact_mod_cast Nat.div_mul_le_self value scale
  next part =>
    have some : 0 < (scale - 1) / value := Nat.div_pos (by omega) value_pos
    have bound := (length_toDigits_bounds some).2
    obtain ⟨k, length⟩ : ∃ k, (Nat.toDigits 10 ((scale - 1) / value)).length = k := ⟨_, rfl⟩
    rw [length, zpow_natCast] at bound
    have whole : (scale - 1) / value < 10 ^ k := by exact_mod_cast bound
    have product := (Nat.div_lt_iff_lt_mul value_pos).1 whole
    have product' : scale ≤ 10 ^ k * value := by omega
    rw [length, zpow_neg, zpow_natCast, le_div_iff₀ scale_cast, inv_mul_le_iff₀ (by positivity)]
    exact_mod_cast product'

theorem grid_around (magnitude : Nat) (e : Int) :
    let range := roundingInterval magnitude
    let below := (range.onGrid e).value / gridStep range e
    (below : ℚ) * 10 ^ e ≤ 4 * significand magnitude * 2 ^ (exponent magnitude - 2) ∧
      4 * significand magnitude * 2 ^ (exponent magnitude - 2) < ((below + 1 : Nat) : ℚ) * 10 ^ e := by
  intro range below
  have step_pos : 0 < gridStep range e :=
    Nat.mul_pos (Nat.pow_pos (by decide)) (scale_pos magnitude)
  have value : (range.onGrid e).value =
      4 * significand magnitude * (powerRatio 2 (exponent magnitude - 2)).1 *
        (powerRatio 10 e).2 := rfl
  have step : gridStep range e =
      (powerRatio 10 e).1 * (powerRatio 2 (exponent magnitude - 2)).2 := rfl
  have lower := Nat.div_mul_le_self (range.onGrid e).value (gridStep range e)
  have upper : (range.onGrid e).value < (below + 1) * gridStep range e :=
    Nat.lt_mul_of_div_lt (Nat.lt_succ_self below) step_pos
  rw [value, step] at lower upper
  have lower' := (decimal_le_binary_iff (exponent magnitude - 2) e).1 lower
  have upper' := mt (decimal_le_binary_iff (exponent magnitude - 2) e).2 (Nat.not_le.2 upper)
  push_cast at lower' upper'
  rw [not_le] at upper'
  refine ⟨lower', ?_⟩
  push_cast
  exact upper'

theorem grid_lt_width {g : ℚ} (magnitude : Nat)
    (fine : g * 10 ^ 16 ≤ 4 * significand magnitude * 2 ^ (exponent magnitude - 2)) :
    g < (2 + reachBelow magnitude) * 2 ^ (exponent magnitude - 2) := by
  have unit : (0 : ℚ) < 2 ^ (exponent magnitude - 2) := by positivity
  have wide : (4 * significand magnitude : ℚ) < (2 + reachBelow magnitude) * 10 ^ 16 := by
    by_cases start : isBinadeStart magnitude = true
    · have least : (significand magnitude : ℚ) = binadeSize := by
        exact_mod_cast (isBinadeStart_iff.1 start).1
      rw [least, reachBelow, if_pos start]
      norm_num [binadeSize]
    · have short : (significand magnitude : ℚ) < (2 * binadeSize : Nat) := by
        exact_mod_cast significand_lt magnitude
      have size : ((2 * binadeSize : Nat) : ℚ) = 9007199254740992 := by norm_num [binadeSize]
      rw [size] at short
      rw [reachBelow, if_neg start]
      norm_num
      linarith
  nlinarith

section Outside

variable {v : ℚ} (nonzero : magnitude ≠ 0) (outside : ¬RoundsTo magnitude v)

include nonzero outside

theorem le_of_not_roundsTo (below : v ≤ 4 * significand magnitude * 2 ^ (exponent magnitude - 2)) :
    v ≤ (4 * significand magnitude - reachBelow magnitude) * 2 ^ (exponent magnitude - 2) := by
  have unit : (0 : ℚ) < 2 ^ (exponent magnitude - 2) := by positivity
  simp only [RoundsTo, not_or, not_and_or, not_lt,
    Nat.cast_sub (reachBelow_le_significand nonzero)] at outside
  push_cast at outside
  rcases outside.1 with low | high
  · exact low
  · nlinarith

theorem ge_of_not_roundsTo (above : 4 * significand magnitude * 2 ^ (exponent magnitude - 2) < v) :
    (4 * significand magnitude + 2) * 2 ^ (exponent magnitude - 2) ≤ v := by
  have unit : (0 : ℚ) < 2 ^ (exponent magnitude - 2) := by positivity
  have least := one_le_reachBelow magnitude
  simp only [RoundsTo, not_or, not_and_or, not_lt,
    Nat.cast_sub (reachBelow_le_significand nonzero)] at outside
  push_cast at outside
  rcases outside.1 with low | high
  · nlinarith
  · exact high

end Outside

theorem some_point (tie : Tie) (nonzero : magnitude ≠ 0) :
    (pointOnGrid? tie (roundingInterval magnitude)
      (leadingExponent (roundingInterval magnitude).value (roundingInterval magnitude).scale -
        16)).isSome = true := by
  have value_pos : 0 < (roundingInterval magnitude).value := by
    have up : 0 < (powerRatio 2 (exponent magnitude - 2)).1 := Nat.pow_pos (by decide)
    exact Nat.mul_pos (Nat.mul_pos (by decide) (significand_pos nonzero)) up
  obtain ⟨e, shift⟩ : ∃ e, leadingExponent (roundingInterval magnitude).value
      (roundingInterval magnitude).scale = e + 16 := ⟨_, (Int.sub_add_cancel _ 16).symm⟩
  rw [shift, Int.add_sub_cancel]
  rcases point : pointOnGrid? tie (roundingInterval magnitude) e with _ | digits
  · -- Without a point the interval would fit between two points of the grid.
    exfalso
    have leading := leadingExponent_le value_pos (scale_pos magnitude)
    rw [value_eq, shift] at leading
    have fine : (10 : ℚ) ^ e * 10 ^ 16 ≤
        4 * significand magnitude * 2 ^ (exponent magnitude - 2) := by
      have sixteen : (10 : ℚ) ^ (16 : Nat) = 10 ^ (16 : Int) := by norm_num
      rw [sixteen, ← zpow_add₀ (by norm_num)]
      exact leading
    have narrow := grid_lt_width magnitude fine
    obtain ⟨below, above⟩ := grid_around magnitude e
    obtain ⟨outside, outside'⟩ := outside_of_no_point point
    obtain ⟨k, index⟩ : ∃ k, ((roundingInterval magnitude).onGrid e).value /
        gridStep (roundingInterval magnitude) e = k := ⟨_, rfl⟩
    rw [index] at below above outside outside'
    have left := mt contains_iff_roundsTo.2 (Bool.not_eq_true _ ▸ outside)
    have right := mt contains_iff_roundsTo.2 (Bool.not_eq_true _ ▸ outside')
    have low := le_of_not_roundsTo nonzero left below
    have high := ge_of_not_roundsTo nonzero right above
    push_cast at high
    nlinarith
  · rfl

/-- The shortest decimal of a number rounds to the number. -/
theorem shortest_roundsTo (tie : Tie) (nonzero : magnitude ≠ 0) :
    RoundsTo magnitude ((shortest tie magnitude).digits * 10 ^ (shortest tie magnitude).exponent) := by
  obtain ⟨top, leading⟩ : ∃ top, leadingExponent (roundingInterval magnitude).value
      (roundingInterval magnitude).scale + 1 = top := ⟨_, rfl⟩
  have point := some_point tie nonzero
  have last : leadingExponent (roundingInterval magnitude).value
      (roundingInterval magnitude).scale - 16 = top - (17 : Nat) := by omega
  rw [last] at point
  unfold shortest
  simp only [if_neg nonzero, leading]
  rcases search : (List.range gridCount).findSome? (fun i : Nat =>
    (pointOnGrid? tie (roundingInterval magnitude) (top - i)).map fun digits =>
      (⟨digits, top - i⟩ : Decimal)) with _ | found
  · rw [List.findSome?_eq_none_iff] at search
    have none := search 17 (by decide)
    rw [Option.map_eq_none_iff] at none
    rw [none] at point
    cases point
  · obtain ⟨i, _, at_i⟩ := List.exists_of_findSome?_eq_some search
    obtain ⟨digits, point, rfl⟩ := Option.map_eq_some_iff.1 at_i
    exact contains_iff_roundsTo.1 (contains_of_pointOnGrid point)

end Interval

end NumericPython.Binary64
