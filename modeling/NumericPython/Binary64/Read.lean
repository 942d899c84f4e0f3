import NumericPython.Binary64.Basic

set_option autoImplicit false

namespace NumericPython.Binary64

def roundQuotient (num den : Nat) : Nat :=
  let below := num / den
  let remainder := num % den
  if 2 * remainder < den then below
  else if den < 2 * remainder then below + 1
  else if below % 2 == 0 then below else below + 1

def scaledBy (exponent : Int) (num den : Nat) : Nat × Nat :=
  (num * Nat.pow 2 (-exponent).toNat, den * Nat.pow 2 exponent.toNat)

def exponentOf (num den : Nat) : Int :=
  let low := max ((Nat.log2 num : Int) - Nat.log2 den - 53) (-1074)
  let (n, d) := scaledBy low num den
  -- The difference of the logarithms is exact or one too small.
  if 2 * binadeSize ≤ n / d then low + 1 else low

def nearestMagnitude (num den : Nat) : Nat :=
  let e := exponentOf num den
  let (n, d) := scaledBy e num den
  -- A significand that is rounded up to the next power of two carries into the exponent.
  min ((e + 1074).toNat * binadeSize + roundQuotient n d) infinityMagnitude

/-- The magnitude of the number nearest to `digits * 10 ^ exponent`. Decimals whose leading digit
lies far outside the range of numbers are settled by it alone. -/
def magnitudeOfDecimal (digits : Nat) (exponent : Int) : Nat :=
  if digits = 0 then 0
  else
    let leading := exponent + ((Nat.toDigits 10 digits).length : Int)
    if 400 < leading then infinityMagnitude
    else if leading < -400 then 0
    else nearestMagnitude (digits * Nat.pow 10 exponent.toNat) (Nat.pow 10 (-exponent).toNat)

theorem magnitudeOfDecimal_lt (digits : Nat) (exponent : Int) :
    magnitudeOfDecimal digits exponent < signBit := by
  have bound : infinityMagnitude < signBit := by decide
  have positive : 0 < infinityMagnitude := by decide
  unfold magnitudeOfDecimal
  split
  · omega
  · dsimp only
    split
    · omega
    · split
      · omega
      · simp only [nearestMagnitude]
        omega

def ofDecimal (isNegative : Bool) (digits : Nat) (exponent : Int) : Binary64 :=
  ⟨isNegative, magnitudeOfDecimal digits exponent, magnitudeOfDecimal_lt digits exponent⟩

def digitValue (c : Char) : Nat :=
  c.toNat - '0'.toNat

def ofDigits (digits : List Char) : Nat :=
  digits.foldl (fun n c => 10 * n + digitValue c) 0

def splitSign : List Char → Bool × List Char
  | '-' :: cs => (true, cs)
  | '+' :: cs => (false, cs)
  | cs => (false, cs)

def exponentText? : List Char → Option Int
  | [] => some 0
  | c :: cs =>
    if c = 'e' || c = 'E' then
      let (isNegative, digits) := splitSign cs
      if !digits.isEmpty && digits.all Char.isDigit then
        some (if isNegative then -(ofDigits digits : Int) else ofDigits digits)
      else none
    else none

def decimalText? (cs : List Char) : Option (Nat × Int) :=
  let whole := cs.takeWhile Char.isDigit
  let rest := cs.dropWhile Char.isDigit
  let (fraction, tail) :=
    match rest with
    | '.' :: more => (more.takeWhile Char.isDigit, more.dropWhile Char.isDigit)
    | rest => ([], rest)
  if whole.isEmpty && fraction.isEmpty then none
  else
    (exponentText? tail).map fun exponent =>
      (ofDigits (whole ++ fraction), exponent - fraction.length)

def ofChars? (cs : List Char) : Option Binary64 :=
  let (isNegative, body) := splitSign cs
  match decimalText? body with
  | some (digits, exponent) => some (ofDecimal isNegative digits exponent)
  | none =>
    let name := String.ofList (body.map Char.toLower)
    if name = "inf" || name = "infinity" then some { infinity with isNegative }
    else if name = "nan" then some { notANumber with isNegative }
    else none

def ofText? (text : String) : Option Binary64 :=
  ofChars? text.toList

end NumericPython.Binary64
