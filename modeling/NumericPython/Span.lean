set_option autoImplicit false

namespace NumericPython

def clampOffset (n : Nat) : UInt32 :=
  if n < UInt32.size then UInt32.ofNat n else UInt32.ofNat (UInt32.size - 1)

theorem clampOffset_toNat {n : Nat} (h : n < UInt32.size) : (clampOffset n).toNat = n := by
  simp [clampOffset, h]

structure Span where
  start : UInt32
  stop : UInt32
deriving DecidableEq, Inhabited

namespace Span

def ofRange (start stop : Nat) : Span :=
  ⟨clampOffset start, clampOffset stop⟩

def emptyAt (offset : UInt32) : Span :=
  ⟨offset, offset⟩

def length (span : Span) : UInt32 :=
  span.stop - span.start

def isEmpty (span : Span) : Bool :=
  span.start == span.stop

def display (span : Span) : String :=
  toString span.start.toNat ++ ".." ++ toString span.stop.toNat

end Span

end NumericPython
