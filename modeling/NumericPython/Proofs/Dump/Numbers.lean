import NumericPython.Proofs.Literal.Numbers

set_option autoImplicit false

namespace NumericPython

def withoutPlus (text : String) : List Char :=
  -- Not every style writes the signs of positive exponents.
  text.toList.filter (· ≠ '+')

def isNumberChar (c : Char) : Bool :=
  c.isDigit || Numeral.isMark c || c == '+'

namespace Decimal

theorem no_plus_real {numeral : Numeral} (valid : numeral.Valid) :
    numeral.real.filter (· ≠ '+') = numeral.real := by
  rw [List.filter_eq_self]
  intro c member
  have among : c ∈ numeral.chars := List.mem_append_left _ member
  rw [decide_eq_true_eq]
  rintro rfl
  rcases Numeral.mem_chars valid among with digit | mark
  · cases digit
  · cases mark

theorem withoutPlus_scientific (plusSign : Bool) (x : Decimal) :
    withoutPlus (x.scientific plusSign) = x.scientificNumeral.real := by
  have dropped (shown : Bool) :
      (if shown = true then "+" else "").toList.filter (· ≠ '+') = [] := by
    cases shown <;> rfl
  have same : withoutPlus (x.scientific plusSign) = withoutPlus (x.scientific false) := by
    simp only [withoutPlus, scientific, String.toList_append, List.filter_append, dropped]
  rw [same, withoutPlus, scientific_eq, no_plus_real (scientificNumeral_valid x).1]

theorem withoutPlus_text (style : DecimalStyle) (x : Decimal) :
    withoutPlus (x.text style) = (x.numeral style).real := by
  have leading : x.exponent + ((toString x.digits).length - 1 : Nat) = x.leading := by
    have digits : (toString x.digits).toList = Nat.toDigits 10 x.digits := Nat.toList_repr
    rw [← String.length_toList, digits]
    rfl
  unfold text numeral
  simp only [leading, Bool.or_eq_true, Bool.and_eq_true, decide_eq_true_eq]
  split
  · rw [withoutPlus, fixed_eq, no_plus_real (fixedNumeral_valid x).1]
  · exact withoutPlus_scientific _ x

end Decimal

theorem isDigits_cons {cs : List Char} (digits : Numeral.isDigits cs = true) :
    ∃ d ds, cs = d :: ds ∧ d.isDigit = true := by
  obtain ⟨filled, each⟩ := Numeral.isDigits_iff.1 digits
  obtain ⟨d, ds, rfl⟩ := List.exists_cons_of_ne_nil filled
  exact ⟨d, ds, rfl, each d (List.mem_cons_self ..)⟩

theorem real_cons {numeral : Numeral} (valid : numeral.Valid) :
    ∃ d ds, numeral.real = d :: ds ∧ d.isDigit = true := by
  obtain ⟨d, ds, whole, digit⟩ := isDigits_cons valid.whole
  exact ⟨d, _, by rw [Numeral.real, whole, List.cons_append], digit⟩

theorem signs_agree {a b : Bool} {first second : List Char}
    (firstDigit : ∃ c cs, first = c :: cs ∧ c.isDigit = true)
    (secondDigit : ∃ c cs, second = c :: cs ∧ c.isDigit = true)
    (same : (if a = true then ['-'] else []) ++ first = (if b = true then ['-'] else []) ++ second) :
    a = b ∧ first = second := by
  obtain ⟨c, cs, rfl, digit⟩ := firstDigit
  obtain ⟨d, ds, rfl, digit'⟩ := secondDigit
  -- A digit is no minus sign, so the first character shows whether the number is negative.
  cases a <;> cases b
  · exact ⟨rfl, same⟩
  · cases same
    cases digit
  · cases same
    cases digit'
  · exact ⟨rfl, List.cons.inj same |>.2⟩

namespace Binary64

variable {style : DecimalStyle} {x y : Binary64}

def numeralIn (style : DecimalStyle) (x : Binary64) : Numeral :=
  (shortest style.tie x.magnitude).numeral style

theorem withoutPlus_text (finite : x.isFinite = true) :
    withoutPlus (x.text style) = (if x.isNegative then ['-'] else []) ++ (x.numeralIn style).real := by
  have number : x.isNaN = false := by
    simp only [isFinite, decide_eq_true_eq] at finite
    simp only [isNaN, decide_eq_false_iff_not]
    omega
  have magnitude := Decimal.withoutPlus_text style (shortest style.tie x.magnitude)
  rw [withoutPlus] at magnitude
  simp only [Binary64.text, number, finite, Bool.false_eq_true, if_false, if_true, withoutPlus,
    String.toList_append, List.filter_append, magnitude, numeralIn]
  cases x.isNegative <;> rfl

theorem numeralIn_valid (style : DecimalStyle) (x : Binary64) :
    (x.numeralIn style).Valid ∧ (x.numeralIn style).isFloat = true :=
  Decimal.numeral_valid style _

theorem text_injective (finite : x.isFinite = true) (finite' : y.isFinite = true)
    (same : x.text style = y.text style) : x = y := by
  have parts := congrArg withoutPlus same
  rw [withoutPlus_text finite, withoutPlus_text finite'] at parts
  obtain ⟨sign, literal⟩ := signs_agree (real_cons (numeralIn_valid style x).1)
    (real_cons (numeralIn_valid style y).1) parts
  -- The rest is a literal that is read back as the magnitude.
  have read : some x.abs = some y.abs := by
    rw [← ofChars?_shortest style finite, ← ofChars?_shortest style finite']
    exact congrArg ofChars? literal
  obtain ⟨xs, xm, hx⟩ := x
  obtain ⟨ys, ym, hy⟩ := y
  simpa [abs] using And.intro sign read

theorem text_isNumberChar (finite : x.isFinite = true) :
    ∀ c ∈ (x.text style).toList, isNumberChar c = true := by
  intro c member
  have parts : withoutPlus (x.text style) = _ := withoutPlus_text finite
  by_cases plus : c = '+'
  · rw [plus]
    rfl
  · have kept : c ∈ withoutPlus (x.text style) := List.mem_filter.2 ⟨member, by simpa using plus⟩
    rw [parts, List.mem_append] at kept
    rcases kept with sign | literal
    · split at sign
      · rw [List.mem_singleton.1 sign]
        rfl
      · cases sign
    · have among : c ∈ (x.numeralIn style).chars := List.mem_append_left _ literal
      rcases Numeral.mem_chars (numeralIn_valid style x).1 among with digit | mark
      · simp [isNumberChar, digit]
      · simp [isNumberChar, mark]

theorem point_or_exponent_mem_text (finite : x.isFinite = true) :
    '.' ∈ (x.text style).toList ∨ 'e' ∈ (x.text style).toList := by
  have parts : withoutPlus (x.text style) = _ := withoutPlus_text finite
  have inText {c : Char} (literal : c ∈ (x.numeralIn style).real) : c ∈ (x.text style).toList := by
    have kept : c ∈ withoutPlus (x.text style) := by
      rw [parts]
      exact List.mem_append_right _ literal
    exact (List.mem_filter.1 kept).1
  have inReal {c : Char} (other : c ≠ 'j') (among : c ∈ (x.numeralIn style).chars) :
      c ∈ (x.numeralIn style).real := by
    rcases List.mem_append.1 among with literal | mark
    · exact literal
    · split at mark
      · exact absurd (List.mem_singleton.1 mark) other
      · cases mark
  rcases (Numeral.isFloat_iff (numeralIn_valid style x).1).1 (numeralIn_valid style x).2 with
    point | exponent
  · exact .inl (inText (inReal (by decide) point))
  · exact .inr (inText (inReal (by decide) exponent))

end Binary64

namespace WholeNumber

theorem toList_toString (value : Int) :
    (toString value).toList =
      (if decide (value < 0) = true then ['-'] else []) ++ Nat.toDigits 10 value.natAbs := by
  have parts := Decimal.toList_repr_int value
  by_cases negative : value < 0 <;> simpa [negative] using parts

theorem toDigits_cons (n : Nat) : ∃ d ds, Nat.toDigits 10 n = d :: ds ∧ d.isDigit = true :=
  isDigits_cons (Decimal.isDigits_toDigits n)

theorem text_ne_nil (value : Int) : (toString value).toList ≠ [] := by
  obtain ⟨c, cs, digits, _⟩ := toDigits_cons value.natAbs
  rw [toList_toString, digits]
  exact List.append_ne_nil_of_right_ne_nil _ (List.cons_ne_nil c cs)

theorem text_injective {a b : Int} (same : toString a = toString b) : a = b := by
  have parts := congrArg String.toList same
  rw [toList_toString, toList_toString] at parts
  obtain ⟨sign, digits⟩ := signs_agree (toDigits_cons _) (toDigits_cons _) parts
  have size : a.natAbs = b.natAbs := by
    rw [← Nat.ofDigitChars_ten_toDigits (n := a.natAbs), digits, Nat.ofDigitChars_ten_toDigits]
  have both : a < 0 ↔ b < 0 := by simpa using sign
  omega

theorem mem_text {value : Int} {c : Char} (member : c ∈ (toString value).toList) :
    c = '-' ∨ c.isDigit = true := by
  rw [toList_toString, List.mem_append] at member
  rcases member with sign | digit
  · split at sign
    · exact .inl (List.mem_singleton.1 sign)
    · cases sign
  · exact .inr ((Numeral.isDigits_iff.1 (Decimal.isDigits_toDigits _)).2 c digit)

theorem text_isNumberChar (value : Int) :
    ∀ c ∈ (toString value).toList, isNumberChar c = true := by
  intro c member
  rcases mem_text member with rfl | digit
  · rfl
  · simp [isNumberChar, digit]

theorem text_ne_float (value : Int) {style : DecimalStyle} {x : Binary64}
    (finite : x.isFinite = true) : toString value ≠ x.text style := by
  intro same
  -- A finite number has a point or an exponent, and a whole number has neither.
  have marked : '.' ∈ (x.text style).toList ∨ 'e' ∈ (x.text style).toList :=
    Binary64.point_or_exponent_mem_text finite
  rw [← same] at marked
  rcases marked with mark | mark <;>
    · rcases mem_text mark with other | digit
      · cases other
      · cases digit

end WholeNumber

end NumericPython
