set_option autoImplicit false

namespace NumericPython

def binadeSize : Nat := 0x10000000000000

def signBit : Nat := 0x8000000000000000

structure Binary64 where
  isNegative : Bool
  magnitude : Nat
  magnitude_lt : magnitude < signBit
deriving DecidableEq

namespace Binary64

-- Larger magnitudes are not numbers.
def infinityMagnitude : Nat := 2047 * binadeSize

def zero : Binary64 := ⟨false, 0, by decide⟩

instance : Inhabited Binary64 := ⟨zero⟩

def infinity : Binary64 := ⟨false, infinityMagnitude, by decide⟩

def notANumber : Binary64 := ⟨false, infinityMagnitude + binadeSize / 2, by decide⟩

def neg (x : Binary64) : Binary64 :=
  { x with isNegative := !x.isNegative }

def isFinite (x : Binary64) : Bool :=
  x.magnitude < infinityMagnitude

def isNaN (x : Binary64) : Bool :=
  infinityMagnitude < x.magnitude

def word (x : Binary64) : Nat :=
  (if x.isNegative then signBit else 0) + x.magnitude

def significand (magnitude : Nat) : Nat :=
  -- Numbers below the least normal one have no leading bit.
  if magnitude < binadeSize then magnitude else binadeSize + magnitude % binadeSize

def exponent (magnitude : Nat) : Int :=
  if magnitude < binadeSize then -1074 else (magnitude / binadeSize : Nat) - 1075

/-- The numbers that round to a power of two reach only half as far below it as above it, unless the
number is among the smallest. -/
def isBinadeStart (magnitude : Nat) : Bool :=
  magnitude % binadeSize == 0 && binadeSize < magnitude

end Binary64

end NumericPython
