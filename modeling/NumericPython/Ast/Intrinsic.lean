set_option autoImplicit false

namespace NumericPython

inductive MathFunction where
  | abs
  | sqrt
  | sin
  | cos
  | exp
  | log
  | csc
  | sec
  | tan
  | cot
  | asin
  | acsc
  | acos
  | asec
  | atan
  | acot
  | atan2
deriving DecidableEq

namespace MathFunction

def name : MathFunction → String
  | abs => "abs"
  | sqrt => "sqrt"
  | sin => "sin"
  | cos => "cos"
  | exp => "exp"
  | log => "log"
  | csc => "csc"
  | sec => "sec"
  | tan => "tan"
  | cot => "cot"
  | asin => "asin"
  | acsc => "acsc"
  | acos => "acos"
  | asec => "asec"
  | atan => "atan"
  | acot => "acot"
  | atan2 => "atan2"

def all : List MathFunction :=
  [abs, sqrt, sin, cos, exp, log, csc, sec, tan, cot, asin, acsc, acos, asec, atan, acot, atan2]

def ofName? (name : String) : Option MathFunction :=
  all.find? (·.name == name)

end MathFunction

inductive IntrinsicFunction where
  | range
  | array
  | shape
  | int
  | len
  | sum
  | zeros
  | ones
  | rand
  | math (function : MathFunction)
deriving DecidableEq

namespace IntrinsicFunction

def name : IntrinsicFunction → String
  | range => "range"
  | array => "array"
  | shape => "shape"
  | int => "int"
  | len => "len"
  | sum => "sum"
  | zeros => "zeros"
  | ones => "ones"
  | rand => "rand"
  | math function => function.name

def plain : List IntrinsicFunction :=
  [range, array, shape, int, len, sum, zeros, ones, rand]

def arity : IntrinsicFunction → Nat × Nat
  | range => (1, 3)
  | shape | zeros | ones | sum => (1, 2)
  | array | int | len => (1, 1)
  | rand => (0, 2)
  | math .atan2 => (2, 2)
  | math _ => (1, 1)

def accepts (function : IntrinsicFunction) (count : Nat) : Bool :=
  function.arity.1 ≤ count && count ≤ function.arity.2

end IntrinsicFunction

end NumericPython
