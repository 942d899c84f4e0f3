set_option autoImplicit false

namespace NumericPython

inductive BinaryOperator where
  | add
  | sub
  | mul
  | div
  | pow
  | and
  | or
  | eq
  | ne
  | lt
  | le
  | gt
  | ge
deriving DecidableEq

namespace BinaryOperator

def text : BinaryOperator → String
  | add => "+"
  | sub => "-"
  | mul => "*"
  | div => "/"
  | pow => "**"
  | and => "and"
  | or => "or"
  | eq => "=="
  | ne => "!="
  | lt => "<"
  | le => "<="
  | gt => ">"
  | ge => ">="

def name : BinaryOperator → String
  | add => "add"
  | sub => "sub"
  | mul => "mul"
  | div => "div"
  | pow => "pow"
  | and => "and"
  | or => "or"
  | eq => "eq"
  | ne => "ne"
  | lt => "lt"
  | le => "le"
  | gt => "gt"
  | ge => "ge"

def all : List BinaryOperator :=
  [add, sub, mul, div, pow, and, or, eq, ne, lt, le, gt, ge]

def isComparison : BinaryOperator → Bool
  | eq | ne | lt | le | gt | ge => true
  | _ => false

def isBoolean : BinaryOperator → Bool
  | and | or => true
  | _ => false

def isArithmetic (op : BinaryOperator) : Bool :=
  !op.isComparison && !op.isBoolean

theorem isArithmetic_iff {op : BinaryOperator} :
    op.isArithmetic = true ↔ op ∈ [add, sub, mul, div, pow] := by
  cases op <;> decide

def ofText? (text : String) : Option BinaryOperator :=
  if text = "<>" then some ne else all.find? (·.text == text)

theorem ofText?_text (op : BinaryOperator) : ofText? op.text = some op := by
  cases op <;> decide

end BinaryOperator

inductive UnaryOperator where
  | neg
  | not
deriving DecidableEq

def UnaryOperator.name : UnaryOperator → String
  | neg => "neg"
  | not => "not"

end NumericPython
