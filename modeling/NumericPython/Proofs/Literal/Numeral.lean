import NumericPython.Binary64.Text
import NumericPython.Literal.Number
import NumericPython.Proofs.Lists

set_option autoImplicit false

namespace NumericPython

structure ExponentPart where
  isNegative : Bool
  digits : List Char

def ExponentPart.chars (part : ExponentPart) : List Char :=
  'e' :: (if part.isNegative then '-' :: part.digits else part.digits)

structure Numeral where
  whole : List Char
  fraction : Option (List Char)
  exponent : Option ExponentPart
  isImaginary : Bool

namespace Numeral

def isDigits (cs : List Char) : Bool :=
  !cs.isEmpty && cs.all Char.isDigit

def fractionChars (numeral : Numeral) : List Char :=
  numeral.fraction.getD []

def pointChars (numeral : Numeral) : List Char :=
  match numeral.fraction with
  | some digits => '.' :: digits
  | none => []

def exponentChars (numeral : Numeral) : List Char :=
  match numeral.exponent with
  | some part => part.chars
  | none => []

def real (numeral : Numeral) : List Char :=
  numeral.whole ++ (numeral.pointChars ++ numeral.exponentChars)

def chars (numeral : Numeral) : List Char :=
  numeral.real ++ if numeral.isImaginary then ['j'] else []

/-- Digits stand before and after a point, and after the mark of an exponent. -/
structure Valid (numeral : Numeral) : Prop where
  whole : isDigits numeral.whole = true
  fraction : ∀ digits, numeral.fraction = some digits → isDigits digits = true
  exponent : ∀ part, numeral.exponent = some part → isDigits part.digits = true

def isFloat (numeral : Numeral) : Bool :=
  numeral.fraction.isSome || numeral.exponent.isSome

def exponentValue (numeral : Numeral) : Int :=
  match numeral.exponent with
  | some part =>
    if part.isNegative then -(Binary64.ofDigits part.digits : Int) else Binary64.ofDigits part.digits
  | none => 0

variable {numeral : Numeral}

theorem isDigits_iff {cs : List Char} :
    isDigits cs = true ↔ cs ≠ [] ∧ ∀ c ∈ cs, c.isDigit = true := by
  simp [isDigits]

theorem splitSign_digits {digits rest : List Char} (all : isDigits digits = true) :
    Binary64.splitSign (digits ++ rest) = (false, digits ++ rest) := by
  obtain ⟨some_digits, digit⟩ := isDigits_iff.1 all
  rcases digits with _ | ⟨c, cs⟩
  · exact absurd rfl some_digits
  · have first := digit c (.head _)
    rw [List.cons_append]
    unfold Binary64.splitSign
    split
    next same => cases same; cases first
    next same => cases same; cases first
    next => rfl

theorem chars_cons (valid : numeral.Valid) :
    ∃ c cs, numeral.chars = c :: cs ∧ c.isDigit = true := by
  obtain ⟨some_digits, digit⟩ := isDigits_iff.1 valid.whole
  rcases whole : numeral.whole with _ | ⟨c, cs⟩
  · exact absurd whole some_digits
  · refine ⟨c, cs ++ (numeral.pointChars ++ numeral.exponentChars) ++
      (if numeral.isImaginary then ['j'] else []), ?_, digit c (by rw [whole]; exact .head _)⟩
    rw [chars, real, whole]
    rfl

theorem exponentText?_exponentChars (valid : numeral.Valid) :
    Binary64.exponentText? numeral.exponentChars = some numeral.exponentValue := by
  rcases present : numeral.exponent with _ | ⟨isNegative, digits⟩
  · simp [Binary64.exponentText?, exponentChars, exponentValue, present]
  · have all := valid.exponent _ present
    have split : Binary64.splitSign digits = (false, digits) := by
      simpa using @splitSign_digits digits [] all
    simp only [isDigits] at all
    cases isNegative with
    | true =>
        simp [exponentChars, ExponentPart.chars, Binary64.exponentText?, Binary64.splitSign,
          exponentValue, present, all]
    | false =>
        simp [exponentChars, ExponentPart.chars, Binary64.exponentText?, split, exponentValue,
          present, all]

theorem head_exponentChars : ∀ c ∈ numeral.exponentChars.head?, c = 'e' := by
  rcases present : numeral.exponent with _ | part <;>
    simp [exponentChars, present, ExponentPart.chars]

theorem decimalText?_real (valid : numeral.Valid) :
    Binary64.decimalText? numeral.real =
      some (Binary64.ofDigits (numeral.whole ++ numeral.fractionChars),
        numeral.exponentValue - numeral.fractionChars.length) := by
  obtain ⟨some_digits, digit⟩ := isDigits_iff.1 valid.whole
  have exponent := exponentText?_exponentChars valid
  -- The scan for digits stops at the point, or at the letter of the exponent.
  have tail_stops : ∀ c ∈ numeral.exponentChars.head?, c.isDigit = false := by
    intro c first
    rw [head_exponentChars c first]
    rfl
  rcases present : numeral.fraction with _ | fraction
  · have real : numeral.real = numeral.whole ++ numeral.exponentChars := by
      simp [Numeral.real, present, pointChars]
    have none : numeral.fractionChars = [] := by simp [fractionChars, present]
    rw [real, none]
    unfold Binary64.decimalText?
    rw [takeWhile_append_stop digit tail_stops, dropWhile_append_stop digit tail_stops]
    rcases tail : numeral.exponentChars with _ | ⟨c, cs⟩
    · rw [tail] at exponent
      simp [some_digits, exponent]
    · have first : c = 'e' := head_exponentChars c (by rw [tail]; rfl)
      subst first
      rw [tail] at exponent
      simp [some_digits, exponent]
  · obtain ⟨some_fraction, digit'⟩ := isDigits_iff.1 (valid.fraction _ present)
    have real : numeral.real = numeral.whole ++ '.' :: (fraction ++ numeral.exponentChars) := by
      simp [Numeral.real, present, pointChars]
    have chars : numeral.fractionChars = fraction := by simp [fractionChars, present]
    have point_stops : ∀ c ∈ ('.' :: (fraction ++ numeral.exponentChars)).head?,
        c.isDigit = false := by simp
    rw [real, chars]
    unfold Binary64.decimalText?
    rw [takeWhile_append_stop digit point_stops, dropWhile_append_stop digit point_stops]
    simp only [takeWhile_append_stop digit' tail_stops, dropWhile_append_stop digit' tail_stops]
    simp [some_digits, exponent]

theorem ofChars?_real (valid : numeral.Valid) :
    Binary64.ofChars? numeral.real =
      some (Binary64.ofDecimal false (Binary64.ofDigits (numeral.whole ++ numeral.fractionChars))
        (numeral.exponentValue - numeral.fractionChars.length)) := by
  have split : Binary64.splitSign numeral.real = (false, numeral.real) :=
    splitSign_digits valid.whole
  unfold Binary64.ofChars?
  rw [split]
  simp only [decimalText?_real valid]

end Numeral

end NumericPython
