import NumericPython.Binary64.Basic

set_option autoImplicit false

/-!
The shortest decimal of a binary number: of all decimals that round to it, one on the coarsest grid
of powers of ten that holds any, and of those the nearest.
-/

namespace NumericPython

structure Decimal where
  digits : Nat
  exponent : Int
deriving DecidableEq

inductive Tie where
  | up
  | even
deriving DecidableEq

namespace Binary64

/-- The decimals that round to a number, over the unit `1 / scale`: they lie between `low` and
`high`, which belong to them when `closed` holds. -/
structure Interval where
  low : Nat
  value : Nat
  high : Nat
  scale : Nat
  closed : Bool

def Interval.contains (range : Interval) (x : Nat) : Bool :=
  if range.closed then range.low ≤ x && x ≤ range.high else range.low < x && x < range.high

def powerRatio (base : Nat) (exponent : Int) : Nat × Nat :=
  (Nat.pow base exponent.toNat, Nat.pow base (-exponent).toNat)

/-- The numbers that round to the finite number of the given magnitude, a quarter of a unit in the
last place counting one. -/
def roundingInterval (magnitude : Nat) : Interval :=
  let m := significand magnitude
  let (up, down) := powerRatio 2 (exponent magnitude - 2)
  { low := (4 * m - if isBinadeStart magnitude then 1 else 2) * up
    value := 4 * m * up
    high := (4 * m + 2) * up
    scale := down
    closed := m % 2 == 0 }

/-- The multiple of `10 ^ exponent` in the interval that is nearest to its value. -/
def pointOnGrid? (tie : Tie) (range : Interval) (exponent : Int) : Option Nat :=
  let (up, down) := powerRatio 10 exponent
  let step := up * range.scale
  let value := range.value * down
  let scaled : Interval :=
    { range with low := range.low * down, value, high := range.high * down }
  let below := value / step
  let above := below + 1
  match scaled.contains (below * step), scaled.contains (above * step) with
  | true, true =>
    let remainder := value - below * step
    if 2 * remainder < step then some below
    else if step < 2 * remainder then some above
    else match tie with
      | .up => some above
      | .even => some (if below % 2 == 0 then below else above)
  | true, false => some below
  | false, true => some above
  | false, false => none

def digitCount (n : Nat) : Nat :=
  (Nat.toDigits 10 n).length

def leadingExponent (value scale : Nat) : Int :=
  if scale ≤ value then digitCount (value / scale) - 1
  else -(digitCount ((scale - 1) / value) : Int)

-- Seventeen digits always tell a number from its neighbours.
def gridCount : Nat := 18

/-- The shortest decimal of the finite number of the given magnitude. -/
def shortest (tie : Tie) (magnitude : Nat) : Decimal :=
  if magnitude = 0 then ⟨0, 0⟩
  else
    let range := roundingInterval magnitude
    -- One grid above the leading digit: nine and a half may round up to ten.
    let top := leadingExponent range.value range.scale + 1
    let onGrid (i : Nat) : Option Decimal :=
      (pointOnGrid? tie range (top - i)).map fun digits => ⟨digits, top - i⟩
    ((List.range gridCount).findSome? onGrid).getD ⟨0, 0⟩

end Binary64

end NumericPython
