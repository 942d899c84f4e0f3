import NumericPython.Binary64.Shortest

set_option autoImplicit false

namespace NumericPython

structure DecimalStyle where
  leastFixed : Int
  leastLarge : Int
  plusSign : Bool
  tie : Tie
deriving DecidableEq

namespace DecimalStyle

/-- Numbers from one ten-thousandth up to ten quadrillion have a point, and a tie goes up. -/
def source : DecimalStyle := ⟨-4, 16, false, .up⟩

/-- In a dump numbers down to one hundred-thousandth have a point, and a tie goes to the even
digit. -/
def dump : DecimalStyle := ⟨-5, 16, true, .even⟩

end DecimalStyle

namespace Decimal

def zeros (n : Nat) : String :=
  String.ofList (List.replicate n '0')

def withPoint (digits : List Char) (decimals : Nat) : String :=
  if decimals < digits.length then
    String.ofList (digits.take (digits.length - decimals)) ++ "." ++
      String.ofList (digits.drop (digits.length - decimals))
  else
    "0." ++ zeros (decimals - digits.length) ++ String.ofList digits

def fixed (x : Decimal) : String :=
  if 0 ≤ x.exponent then
    toString x.digits ++ zeros x.exponent.toNat ++ ".0"
  else
    withPoint (toString x.digits).toList (-x.exponent).toNat

def scientific (plusSign : Bool) (x : Decimal) : String :=
  let digits := (toString x.digits).toList
  let leading := x.exponent + (digits.length - 1 : Nat)
  let fraction := digits.drop 1
  String.ofList (digits.take 1) ++
    (if fraction.isEmpty then "" else "." ++ String.ofList fraction) ++
    "e" ++ (if plusSign && 0 < leading then "+" else "") ++ toString leading

def text (style : DecimalStyle) (x : Decimal) : String :=
  let leading := x.exponent + ((toString x.digits).length - 1 : Nat)
  if x.digits = 0 || style.leastFixed ≤ leading && leading < style.leastLarge then x.fixed
  else x.scientific style.plusSign

end Decimal

namespace Binary64

def text (style : DecimalStyle) (x : Binary64) : String :=
  if x.isNaN then "NaN"
  else
    (if x.isNegative then "-" else "") ++
      if x.isFinite then (shortest style.tie x.magnitude).text style else "inf"

end Binary64

end NumericPython
