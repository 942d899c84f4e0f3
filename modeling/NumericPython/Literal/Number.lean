import NumericPython.Ast.Expr
import NumericPython.Binary64.Read

set_option autoImplicit false

namespace NumericPython.Literal

def digitIn? (base : Nat) (c : Char) : Option Nat :=
  let value :=
    if c.isDigit then c.toNat - '0'.toNat
    else if 'a' ≤ c && c ≤ 'z' then c.toNat - 'a'.toNat + 10
    else base
  if value < base then some value else none

def digitsFrom? (base : Nat) (value : Nat) : List Char → Option Nat
  | [] => some value
  | c :: cs => (digitIn? base c).bind fun digit => digitsFrom? base (base * value + digit) cs

def natural? (base : Nat) : List Char → Option Nat
  | [] => none
  | cs => digitsFrom? base 0 cs

def signed? (base : Nat) : List Char → Option Int
  | '-' :: cs => (natural? base cs).map fun n => -(n : Int)
  | '+' :: cs => (natural? base cs).map fun n => (n : Int)
  | cs => (natural? base cs).map fun n => (n : Int)

def integerValue? : List Char → Option Int
  | '0' :: 'x' :: cs => signed? 16 cs
  | '0' :: 'o' :: cs => signed? 8 cs
  | '0' :: 'b' :: cs => signed? 2 cs
  | cs => signed? 10 cs

def withoutSeparators (cs : List Char) : List Char :=
  cs.filter (· != '_')

def isLong (c : Char) : Bool :=
  c == 'l' || c == 'L'

def withoutLongMark (cs : List Char) : List Char :=
  (cs.reverse.dropWhile isLong).reverse

def imaginaryPart? (cs : List Char) : Option (List Char) :=
  match cs.getLast? with
  | some c => if c = 'j' || c = 'J' then some cs.dropLast else none
  | none => none

def int64? (value : Int) : Option Int64 :=
  if Int64.minValue.toInt ≤ value && value ≤ Int64.maxValue.toInt then some (Int64.ofInt value)
  else none

def finite? (negate : Bool) (cs : List Char) : Option Binary64 :=
  match Binary64.ofChars? cs with
  | some x => if x.isFinite then some (if negate then x.neg else x) else none
  | none => none

def whole? (negate : Bool) (cs : List Char) : Option Expr := do
  let value ← integerValue? ((withoutLongMark cs).map Char.toLower)
  let number ← int64? (if negate then -value else value)
  some (.integer number)

def integer? (negate : Bool) (text : String) : Option Expr :=
  let cs := withoutSeparators text.toList
  match imaginaryPart? cs with
  | some part => (finite? negate part).map .complex
  | none => whole? negate cs

def float? (negate : Bool) (text : String) : Option Expr :=
  let cs := withoutSeparators text.toList
  match imaginaryPart? cs with
  | some part => (finite? negate part).map .complex
  | none => (finite? negate cs).map .float

end NumericPython.Literal
