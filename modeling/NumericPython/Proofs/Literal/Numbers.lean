import NumericPython.Proofs.Binary64.Text

set_option autoImplicit false

namespace NumericPython

namespace Numeral

variable {numeral : Numeral}

def isMark (c : Char) : Bool :=
  c == '.' || c == 'e' || c == '-' || c == 'j'

theorem mem_chars (valid : numeral.Valid) {c : Char} (member : c ∈ numeral.chars) :
    c.isDigit = true ∨ isMark c = true := by
  have whole := (isDigits_iff.1 valid.whole).2
  simp only [chars, real, List.mem_append] at member
  rcases member with (member | member | member) | member
  · exact .inl (whole c member)
  · rcases present : numeral.fraction with _ | digits
    · simp [pointChars, present] at member
    · simp only [pointChars, present, List.mem_cons] at member
      rcases member with rfl | member
      · exact .inr rfl
      · exact .inl ((isDigits_iff.1 (valid.fraction _ present)).2 c member)
  · rcases present : numeral.exponent with _ | ⟨isNegative, digits⟩
    · simp [exponentChars, present] at member
    · have digit := (isDigits_iff.1 (valid.exponent _ present)).2
      cases isNegative with
      | true =>
          simp only [exponentChars, present, ExponentPart.chars, if_true, List.mem_cons] at member
          rcases member with rfl | rfl | member
          · exact .inr rfl
          · exact .inr rfl
          · exact .inl (digit c member)
      | false =>
          simp only [exponentChars, present, ExponentPart.chars, Bool.false_eq_true, if_false,
            List.mem_cons] at member
          rcases member with rfl | member
          · exact .inr rfl
          · exact .inl (digit c member)
  · split at member
    · rw [List.mem_singleton.1 member]
      exact .inr rfl
    · cases member

theorem isFloat_iff (valid : numeral.Valid) :
    numeral.isFloat = true ↔ '.' ∈ numeral.chars ∨ 'e' ∈ numeral.chars := by
  obtain ⟨whole, fraction, exponent, isImaginary⟩ := numeral
  constructor
  · intro isFloat
    cases fraction with
    | some digits => exact .inl (by simp [chars, real, pointChars])
    | none =>
        cases exponent with
        | some part => exact .inr (by simp [chars, real, exponentChars, ExponentPart.chars])
        | none => cases isFloat
  · intro member
    cases fraction with
    | some digits => rfl
    | none =>
        cases exponent with
        | some part => rfl
        | none =>
            have digit := (isDigits_iff.1 valid.whole).2
            simp only [chars, real, pointChars, exponentChars, List.append_nil, List.mem_append] at member
            have later : '.' ∉ (if isImaginary then ['j'] else []) ∧
                'e' ∉ (if isImaginary then ['j'] else []) := by
              cases isImaginary <;> decide
            rcases member with (member | member) | (member | member)
            · cases digit '.' member
            · exact absurd member later.1
            · cases digit 'e' member
            · exact absurd member later.2
theorem getLast?_of_isDigits {cs ds : List Char} (all : isDigits ds = true) :
    ∃ c, (cs ++ ds).getLast? = some c ∧ c.isDigit = true := by
  obtain ⟨some_digits, digit⟩ := isDigits_iff.1 all
  refine ⟨ds.getLast some_digits, ?_, digit _ (List.getLast_mem some_digits)⟩
  rw [List.getLast?_append, List.getLast?_eq_some_getLast some_digits]
  rfl

theorem getLast?_real (valid : numeral.Valid) :
    ∃ c, numeral.real.getLast? = some c ∧ c.isDigit = true := by
  unfold real
  rcases exponent : numeral.exponent with _ | ⟨isNegative, digits⟩
  · rcases fraction : numeral.fraction with _ | digits
    · simpa [pointChars, exponentChars, exponent, fraction] using
        @getLast?_of_isDigits [] _ valid.whole
    · have last := @getLast?_of_isDigits (numeral.whole ++ ['.']) _ (valid.fraction _ fraction)
      simpa [pointChars, exponentChars, exponent, fraction] using last
  · have all := valid.exponent _ exponent
    cases isNegative with
    | true =>
        have last := @getLast?_of_isDigits (numeral.whole ++ (numeral.pointChars ++ ['e', '-'])) _ all
        simpa [exponentChars, exponent, ExponentPart.chars] using last
    | false =>
        have last := @getLast?_of_isDigits (numeral.whole ++ (numeral.pointChars ++ ['e'])) _ all
        simpa [exponentChars, exponent, ExponentPart.chars] using last

end Numeral

namespace Literal

theorem withoutSeparators_chars {numeral : Numeral} (valid : numeral.Valid) :
    withoutSeparators numeral.chars = numeral.chars := by
  rw [withoutSeparators, List.filter_eq_self]
  intro c member
  rcases Numeral.mem_chars valid member with digit | mark
  · rcases decEq c '_' with other | rfl
    · simpa using other
    · cases digit
  · simp only [Numeral.isMark, Bool.or_eq_true, beq_iff_eq] at mark
    rcases mark with ((rfl | rfl) | rfl) | rfl <;> rfl

theorem imaginaryPart?_real {numeral : Numeral} (valid : numeral.Valid) :
    imaginaryPart? numeral.real = none ∧
      imaginaryPart? (numeral.real ++ ['j']) = some numeral.real := by
  obtain ⟨c, last, digit⟩ := Numeral.getLast?_real valid
  constructor
  · have other : ¬(c = 'j' ∨ c = 'J') := by
      rintro (rfl | rfl) <;> cases digit
    simp [imaginaryPart?, last, other]
  · simp [imaginaryPart?]

theorem isNumericLiteral_of_integer? {negate : Bool} {text : String} {e : Expr}
    (found : integer? negate text = some e) : e.isNumericLiteral = true := by
  simp only [integer?] at found
  split at found
  · obtain ⟨x, _, rfl⟩ := Option.map_eq_some_iff.1 found
    rfl
  · simp only [whole?, Option.bind_eq_bind, Option.bind_eq_some_iff, Option.some.injEq] at found
    obtain ⟨_, _, _, _, rfl⟩ := found
    rfl

theorem isNumericLiteral_of_float? {negate : Bool} {text : String} {e : Expr}
    (found : float? negate text = some e) : e.isNumericLiteral = true := by
  simp only [float?] at found
  split at found <;>
    · obtain ⟨x, _, rfl⟩ := Option.map_eq_some_iff.1 found
      rfl

theorem finite?_numeral {x : Binary64} (finite : x.isFinite = true) :
    finite? x.isNegative x.numeral.real = some x := by
  have abs : x.abs.isFinite = true := finite
  simp only [finite?, Binary64.ofChars?_numeral finite, abs, if_true, Option.some.injEq]
  obtain ⟨isNegative, magnitude, bound⟩ := x
  cases isNegative <;> rfl

theorem float?_numeral {x : Binary64} (finite : x.isFinite = true) :
    float? x.isNegative (String.ofList x.numeral.real) = some (.float x) := by
  have valid := (Decimal.numeral_valid .source (Binary64.shortest .up x.magnitude)).1
  have chars : x.numeral.chars = x.numeral.real := by
    simp [Numeral.chars, Binary64.numeral_isImaginary]
  have kept := @withoutSeparators_chars x.numeral valid
  rw [chars] at kept
  simp only [float?, String.toList_ofList, kept, (@imaginaryPart?_real x.numeral valid).1,
    finite?_numeral finite, Option.map_some]

theorem float?_imaginary {x : Binary64} (finite : x.isFinite = true) :
    float? x.isNegative (String.ofList (x.numeral.real ++ ['j'])) = some (.complex x) := by
  have valid := (Decimal.numeral_valid .source (Binary64.shortest .up x.magnitude)).1
  have kept := @withoutSeparators_chars { x.numeral with isImaginary := true }
    ⟨valid.whole, valid.fraction, valid.exponent⟩
  have chars : ({ x.numeral with isImaginary := true } : Numeral).chars =
      x.numeral.real ++ ['j'] := rfl
  rw [chars] at kept
  simp only [float?, String.toList_ofList, kept, (@imaginaryPart?_real x.numeral valid).2,
    finite?_numeral finite, Option.map_some]

theorem digitIn?_ten {c : Char} (digit : c.isDigit = true) :
    digitIn? 10 c = some (c.toNat - '0'.toNat) := by
  have small : c.toNat - '0'.toNat < 10 := by
    simp only [Char.isDigit, Bool.and_eq_true, decide_eq_true_eq] at digit
    have upper : c.toNat ≤ '9'.toNat := digit.2
    have nine : '9'.toNat = '0'.toNat + 9 := rfl
    omega
  simp only [digitIn?, digit, if_true, small]

theorem digitsFrom?_ten {cs : List Char} (all : ∀ c ∈ cs, c.isDigit = true) (value : Nat) :
    digitsFrom? 10 value cs = some (Nat.ofDigitChars 10 cs value) := by
  induction cs generalizing value with
  | nil => rfl
  | cons c cs ih =>
      rw [digitsFrom?, digitIn?_ten (all c (.head _)), Option.bind_some,
        ih fun d member => all d (.tail _ member)]
      rfl

theorem signed?_ten {cs : List Char} (all : Numeral.isDigits cs = true) :
    signed? 10 cs = some (Nat.ofDigitChars 10 cs 0 : Int) := by
  obtain ⟨some_digits, digit⟩ := Numeral.isDigits_iff.1 all
  rcases cs with _ | ⟨c, cs⟩
  · exact absurd rfl some_digits
  · have first := digit c (.head _)
    unfold signed?
    split
    next same => cases same; cases first
    next same => cases same; cases first
    next =>
      rw [natural?, digitsFrom?_ten digit]
      · rfl
      · exact some_digits

theorem integerValue?_digits {cs : List Char} (all : Numeral.isDigits cs = true) :
    integerValue? cs = some (Nat.ofDigitChars 10 cs 0 : Int) := by
  have digit := (Numeral.isDigits_iff.1 all).2
  unfold integerValue?
  split
  · cases digit 'x' (.tail _ (.head _))
  · cases digit 'o' (.tail _ (.head _))
  · cases digit 'b' (.tail _ (.head _))
  · exact signed?_ten all

theorem toLower_digit {c : Char} (digit : c.isDigit = true) : c.toLower = c := by
  have small : ¬(c.val ≥ 'A'.val ∧ c.val ≤ 'Z'.val) := by
    simp only [Char.isDigit, Bool.and_eq_true, decide_eq_true_eq] at digit
    intro upper
    have nine : '9'.val < 'A'.val := by decide
    exact absurd (UInt32.le_trans upper.1 digit.2) (UInt32.not_le.2 nine)
  exact dif_neg small

theorem whole?_digits {cs : List Char} (all : Numeral.isDigits cs = true) (negate : Bool) :
    whole? negate cs =
      (int64? (if negate then -(Nat.ofDigitChars 10 cs 0 : Int)
        else Nat.ofDigitChars 10 cs 0)).map .integer := by
  have digit := (Numeral.isDigits_iff.1 all).2
  have short : withoutLongMark cs = cs := by
    have stops : cs.reverse.dropWhile isLong = cs.reverse := by
      rcases reversed : cs.reverse with _ | ⟨c, rest⟩
      · rfl
      · have last := digit c (List.mem_reverse.1 (by rw [reversed]; exact .head _))
        have other : isLong c = false := by
          simp only [isLong, Bool.or_eq_false_iff, beq_eq_false_iff_ne]
          constructor <;> rintro rfl <;> cases last
        simp [other]
    rw [withoutLongMark, stops, List.reverse_reverse]
  have lower : cs.map Char.toLower = cs := by
    rw [List.map_congr_left fun c member => toLower_digit (digit c member), List.map_id']
  simp only [whole?, short, lower, integerValue?_digits all, Option.bind_eq_bind, Option.bind_some]
  cases int64? (if negate = true then -(Nat.ofDigitChars 10 cs 0 : Int)
    else Nat.ofDigitChars 10 cs 0) <;> rfl

theorem integer?_digits (value : Int64) :
    integer? (value.toInt < 0) (String.ofList (Nat.toDigits 10 value.toInt.natAbs)) =
      some (.integer value) := by
  have all := Decimal.isDigits_toDigits value.toInt.natAbs
  have digit := (Numeral.isDigits_iff.1 all).2
  have kept : withoutSeparators (Nat.toDigits 10 value.toInt.natAbs) =
      Nat.toDigits 10 value.toInt.natAbs := by
    rw [withoutSeparators, List.filter_eq_self]
    intro c member
    rcases decEq c '_' with other | rfl
    · simpa using other
    · cases digit _ member
  have real : imaginaryPart? (Nat.toDigits 10 value.toInt.natAbs) = none := by
    obtain ⟨c, last, digit⟩ := @Numeral.getLast?_of_isDigits [] _ all
    rw [List.nil_append] at last
    have other : ¬(c = 'j' ∨ c = 'J') := by
      rintro (rfl | rfl) <;> cases digit
    simp [imaginaryPart?, last, other]
  have number : (if (decide (value.toInt < 0)) = true then -(value.toInt.natAbs : Int)
      else value.toInt.natAbs) = value.toInt := by
    simp only [decide_eq_true_eq]
    split <;> omega
  have range : (Int64.minValue.toInt ≤ value.toInt && value.toInt ≤ Int64.maxValue.toInt) = true := by
    rw [Bool.and_eq_true, decide_eq_true_eq, decide_eq_true_eq]
    exact ⟨value.minValue_le_toInt, value.toInt_le⟩
  simp only [integer?, String.toList_ofList, kept, real, whole?_digits all,
    Nat.ofDigitChars_ten_toDigits, number, int64?, range, if_true, Option.map_some, Int64.ofInt_toInt]

end Literal

end NumericPython
