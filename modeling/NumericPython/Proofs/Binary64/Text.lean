import NumericPython.Proofs.Binary64.Shortest
import NumericPython.Proofs.Literal.Numeral

set_option autoImplicit false

namespace NumericPython

namespace Decimal

def leading (x : Decimal) : Int :=
  x.exponent + ((Nat.toDigits 10 x.digits).length - 1 : Nat)

def fixedNumeral (x : Decimal) : Numeral :=
  let digits := Nat.toDigits 10 x.digits
  let decimals := (-x.exponent).toNat
  if 0 ≤ x.exponent then
    ⟨digits ++ List.replicate x.exponent.toNat '0', some ['0'], none, false⟩
  else if decimals < digits.length then
    ⟨digits.take (digits.length - decimals), some (digits.drop (digits.length - decimals)), none,
      false⟩
  else ⟨['0'], some (List.replicate (decimals - digits.length) '0' ++ digits), none, false⟩

def scientificNumeral (x : Decimal) : Numeral :=
  let digits := Nat.toDigits 10 x.digits
  ⟨digits.take 1, if digits.drop 1 = [] then none else some (digits.drop 1),
    some ⟨x.leading < 0, Nat.toDigits 10 x.leading.natAbs⟩, false⟩

def numeral (style : DecimalStyle) (x : Decimal) : Numeral :=
  if x.digits = 0 ∨ style.leastFixed ≤ x.leading ∧ x.leading < style.leastLarge then x.fixedNumeral
  else x.scientificNumeral

variable {x : Decimal}

theorem fixed_eq (x : Decimal) : x.fixed.toList = x.fixedNumeral.real := by
  unfold fixed fixedNumeral
  split
  · simp [Numeral.real, Numeral.pointChars, Numeral.exponentChars, zeros]
  · have digits : (toString x.digits).toList = Nat.toDigits 10 x.digits := Nat.toList_repr
    simp only [withPoint, digits]
    split
    · simp [Numeral.real, Numeral.pointChars, Numeral.exponentChars]
    · simp [Numeral.real, Numeral.pointChars, Numeral.exponentChars, zeros]

theorem toList_repr_int (i : Int) :
    i.repr.toList =
      if i < 0 then '-' :: Nat.toDigits 10 i.natAbs else Nat.toDigits 10 i.natAbs := by
  rw [Int.repr_eq_if]
  by_cases negative : i < 0
  · have abs : (-i).toNat = i.natAbs := by omega
    rw [if_neg (by omega), if_pos negative, abs]
    simp
  · have abs : i.toNat = i.natAbs := by omega
    rw [if_pos (by omega), if_neg negative, abs]
    simp

theorem scientific_eq (x : Decimal) :
    (x.scientific false).toList = x.scientificNumeral.real := by
  have digits : (toString x.digits).toList = Nat.toDigits 10 x.digits := Nat.toList_repr
  have leading : x.exponent + ((Nat.toDigits 10 x.digits).length - 1 : Nat) = x.leading := rfl
  unfold scientific scientificNumeral
  simp only [digits, leading, Bool.false_and, Bool.false_eq_true, if_false]
  obtain ⟨rest, others⟩ : ∃ rest, (Nat.toDigits 10 x.digits).drop 1 = rest := ⟨_, rfl⟩
  rw [others]
  by_cases single : rest = []
  · simp [single, toList_repr_int, Numeral.real, Numeral.pointChars, Numeral.exponentChars,
      ExponentPart.chars]
  · simp [single, toList_repr_int, Numeral.real, Numeral.pointChars, Numeral.exponentChars,
      ExponentPart.chars]

theorem text_eq {style : DecimalStyle} (plain : style.plusSign = false) (x : Decimal) :
    (x.text style).toList = (x.numeral style).real := by
  have leading : x.exponent + ((toString x.digits).length - 1 : Nat) = x.leading := by
    rw [← String.length_toList]
    have digits : (toString x.digits).toList = Nat.toDigits 10 x.digits := Nat.toList_repr
    rw [digits]
    rfl
  unfold text numeral
  simp only [leading, plain, Bool.or_eq_true, Bool.and_eq_true, decide_eq_true_eq]
  split
  · exact fixed_eq x
  · exact scientific_eq x

theorem isDigits_toDigits (n : Nat) : Numeral.isDigits (Nat.toDigits 10 n) = true :=
  Numeral.isDigits_iff.2 ⟨Nat.toDigits_ne_nil, fun _ member =>
    Nat.isDigit_of_mem_toDigits (by decide) (by decide) member⟩

theorem ofDigits_eq (cs : List Char) : Binary64.ofDigits cs = Nat.ofDigitChars 10 cs 0 := by
  rw [Nat.ofDigitChars_eq_foldl]
  rfl

theorem isDigits_of_sublist {cs ds : List Char} (all : Numeral.isDigits ds = true)
    (sub : List.Sublist cs ds) (some_digits : cs ≠ []) : Numeral.isDigits cs = true :=
  Numeral.isDigits_iff.2 ⟨some_digits, fun c member =>
    (Numeral.isDigits_iff.1 all).2 c (sub.subset member)⟩

theorem isDigits_append {cs ds : List Char} (left : ∀ c ∈ cs, c.isDigit = true)
    (right : ∀ c ∈ ds, c.isDigit = true) (some_digits : cs ++ ds ≠ []) :
    Numeral.isDigits (cs ++ ds) = true :=
  Numeral.isDigits_iff.2 ⟨some_digits, fun c member =>
    (List.mem_append.1 member).elim (left c) (right c)⟩

theorem isDigit_zeros (n : Nat) : ∀ c ∈ List.replicate n '0', c.isDigit = true := by
  intro c member
  rw [List.eq_of_mem_replicate member]
  rfl

theorem fixedNumeral_valid (x : Decimal) :
    x.fixedNumeral.Valid ∧ x.fixedNumeral.isFloat = true := by
  have all := isDigits_toDigits x.digits
  obtain ⟨some_digits, digit⟩ := Numeral.isDigits_iff.1 all
  unfold fixedNumeral
  simp only
  split
  · refine ⟨⟨isDigits_append digit (isDigit_zeros _) (by simp [some_digits]), ?_, by simp⟩, rfl⟩
    intro digits same
    cases same
    rfl
  next negative =>
    split
    next inside =>
      refine ⟨⟨isDigits_of_sublist all (List.take_sublist ..) ?_, ?_, by simp⟩, rfl⟩
      · rw [Ne, List.take_eq_nil_iff]
        rintro (none | none)
        · omega
        · exact some_digits none
      · intro digits same
        cases same
        refine isDigits_of_sublist all (List.drop_sublist ..) ?_
        rw [Ne, List.drop_eq_nil_iff]
        omega
    next outside =>
      refine ⟨⟨rfl, ?_, by simp⟩, rfl⟩
      intro digits same
      cases same
      exact isDigits_append (isDigit_zeros _) digit (by simp [some_digits])

theorem scientificNumeral_valid (x : Decimal) :
    x.scientificNumeral.Valid ∧ x.scientificNumeral.isFloat = true := by
  have all := isDigits_toDigits x.digits
  have some_digits := (Numeral.isDigits_iff.1 all).1
  unfold scientificNumeral
  refine ⟨⟨isDigits_of_sublist all (List.take_sublist ..) (by simp [some_digits]), ?_, ?_⟩, ?_⟩
  · intro digits same
    simp only at same
    split at same
    · cases same
    next more =>
      cases same
      exact isDigits_of_sublist all (List.drop_sublist ..) more
  · intro part same
    cases same
    exact isDigits_toDigits _
  · simp [Numeral.isFloat]

theorem numeral_valid (style : DecimalStyle) (x : Decimal) :
    (x.numeral style).Valid ∧ (x.numeral style).isFloat = true := by
  unfold numeral
  split
  · exact fixedNumeral_valid x
  · exact scientificNumeral_valid x

def spelled (numeral : Numeral) : ℚ :=
  Binary64.ofDigits (numeral.whole ++ numeral.fractionChars) *
    10 ^ (numeral.exponentValue - numeral.fractionChars.length)

theorem spelled_fixed (x : Decimal) : spelled x.fixedNumeral = x.digits * 10 ^ x.exponent := by
  unfold fixedNumeral
  simp only
  split
  next positive =>
    -- A whole number, with zeros behind its digits and a zero behind the point.
    obtain ⟨k, power⟩ := Int.eq_ofNat_of_zero_le positive
    have one : Nat.ofDigitChars 10 ['0'] (10 ^ k * x.digits) = 10 * (10 ^ k * x.digits) := rfl
    simp only [spelled, Numeral.fractionChars, Numeral.exponentValue, Option.getD_some, ofDigits_eq,
      Nat.ofDigitChars_append, Nat.ofDigitChars_ten_toDigits, Nat.ofDigitChars_replicate_zero, power,
      Int.toNat_natCast, one]
    push_cast
    rw [List.length_singleton, zpow_natCast]
    norm_num
    ring
  next negative =>
    have decimals : (((-x.exponent).toNat : Nat) : Int) = -x.exponent :=
      Int.toNat_of_nonneg (by omega)
    split
    next inside =>
      -- The point stands among the digits.
      have count : (0 : Int) - ((Nat.toDigits 10 x.digits).drop
          ((Nat.toDigits 10 x.digits).length - (-x.exponent).toNat)).length = x.exponent := by
        rw [List.length_drop]
        omega
      simp only [spelled, Numeral.fractionChars, Numeral.exponentValue, Option.getD_some, ofDigits_eq,
        List.take_append_drop, Nat.ofDigitChars_ten_toDigits, count]
    next outside =>
      -- The point stands in front of the digits, with zeros between.
      have count : (0 : Int) - (List.replicate ((-x.exponent).toNat -
          (Nat.toDigits 10 x.digits).length) '0' ++ Nat.toDigits 10 x.digits).length =
          x.exponent := by
        rw [List.length_append, List.length_replicate]
        omega
      have zero : Nat.ofDigitChars 10 ['0'] 0 = 0 := rfl
      simp only [spelled, Numeral.fractionChars, Numeral.exponentValue, Option.getD_some, ofDigits_eq,
        Nat.ofDigitChars_append, zero, Nat.ofDigitChars_replicate_zero, Nat.mul_zero,
        Nat.ofDigitChars_ten_toDigits, count]

theorem spelled_scientific (x : Decimal) :
    spelled x.scientificNumeral = x.digits * 10 ^ x.exponent := by
  have fraction : x.scientificNumeral.fractionChars = (Nat.toDigits 10 x.digits).drop 1 := by
    unfold scientificNumeral Numeral.fractionChars
    simp only
    split
    next none => rw [none]; rfl
    next => rfl
  have power : x.scientificNumeral.exponentValue = x.leading := by
    simp only [scientificNumeral, Numeral.exponentValue, ofDigits_eq, Nat.ofDigitChars_ten_toDigits,
      decide_eq_true_eq]
    split <;> omega
  have whole : x.scientificNumeral.whole = (Nat.toDigits 10 x.digits).take 1 := rfl
  have count : x.leading - ((Nat.toDigits 10 x.digits).drop 1).length = x.exponent := by
    rw [leading, List.length_drop]
    omega
  rw [spelled, fraction, power, whole, List.take_append_drop, count, ofDigits_eq,
    Nat.ofDigitChars_ten_toDigits]

theorem spelled_numeral (style : DecimalStyle) (x : Decimal) :
    spelled (x.numeral style) = x.digits * 10 ^ x.exponent := by
  unfold numeral
  split
  · exact spelled_fixed x
  · exact spelled_scientific x

end Decimal

namespace Binary64

def abs (x : Binary64) : Binary64 :=
  ⟨false, x.magnitude, x.magnitude_lt⟩

def numeral (x : Binary64) : Numeral :=
  (shortest .up x.magnitude).numeral .source

theorem numeral_isImaginary (x : Binary64) : x.numeral.isImaginary = false := by
  unfold numeral Decimal.numeral Decimal.fixedNumeral Decimal.scientificNumeral
  simp only
  split
  · split
    · rfl
    · split <;> rfl
  · rfl

theorem text_of_finite {x : Binary64} (finite : x.isFinite = true) :
    (x.text .source).toList = (if x.isNegative then ['-'] else []) ++ x.numeral.real := by
  have number : x.isNaN = false := by
    simp only [isFinite, decide_eq_true_eq] at finite
    simp only [isNaN, decide_eq_false_iff_not]
    omega
  have text := @Decimal.text_eq .source rfl (shortest .up x.magnitude)
  simp only [Binary64.text, number, finite, Bool.false_eq_true, if_false, if_true,
    String.toList_append]
  have tie : DecimalStyle.source.tie = .up := rfl
  rw [tie, text, numeral]
  cases x.isNegative <;> rfl

theorem ofChars?_shortest (style : DecimalStyle) {x : Binary64} (finite : x.isFinite = true) :
    ofChars? ((shortest style.tie x.magnitude).numeral style).real = some x.abs := by
  have valid := (Decimal.numeral_valid style (shortest style.tie x.magnitude)).1
  rw [Numeral.ofChars?_real valid]
  simp only [ofDecimal, abs, Option.some.injEq, Binary64.mk.injEq, true_and]
  have value := Decimal.spelled_numeral style (shortest style.tie x.magnitude)
  by_cases zero : x.magnitude = 0
  · have plain : (shortest style.tie 0).numeral style = (Decimal.mk 0 0).fixedNumeral :=
      if_pos (.inl rfl)
    rw [zero, plain]
    decide
  · simp only [isFinite, decide_eq_true_eq] at finite
    refine magnitudeOfDecimal_eq zero finite ?_
    have rounds := shortest_roundsTo style.tie zero
    rwa [← value] at rounds

theorem ofChars?_numeral {x : Binary64} (finite : x.isFinite = true) :
    ofChars? x.numeral.real = some x.abs :=
  ofChars?_shortest .source finite

end Binary64

end NumericPython
