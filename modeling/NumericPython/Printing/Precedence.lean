import NumericPython.Ast.Expr

set_option autoImplicit false

namespace NumericPython

inductive Precedence where
  | or
  | and
  | not
  | comparison
  | sum
  | product
  | unary
  | power
  | atom
deriving DecidableEq

namespace Precedence

def rank : Precedence → Nat
  | or => 1
  | and => 2
  | not => 3
  | comparison => 4
  | sum => 5
  | product => 6
  | unary => 7
  | power => 8
  | atom => 9

theorem rank_injective {a b : Precedence} (h : a.rank = b.rank) : a = b := by
  cases a <;> cases b <;> first | rfl | cases h

instance : LT Precedence := ⟨fun a b => a.rank < b.rank⟩

instance : LE Precedence := ⟨fun a b => a.rank ≤ b.rank⟩

instance (a b : Precedence) : Decidable (a < b) :=
  inferInstanceAs (Decidable (a.rank < b.rank))

instance (a b : Precedence) : Decidable (a ≤ b) :=
  inferInstanceAs (Decidable (a.rank ≤ b.rank))

def ofOperator : BinaryOperator → Precedence
  | .or => or
  | .and => and
  | .eq | .ne | .lt | .le | .gt | .ge => comparison
  | .add | .sub => sum
  | .mul | .div => product
  | .pow => power

def ofExpr : Expr → Precedence
  | .binary op _ _ => ofOperator op
  | .unary .not _ => not
  | .unary .neg _ => unary
  -- A negative number prints with a minus sign in front and so binds like a negation.
  | .integer value => if value < 0 then unary else atom
  | .float value | .complex value => if value.isNegative then unary else atom
  | _ => atom

/-- Whether the left operand of `op` needs parentheses. Powers group to the right and comparisons
not at all; the other operators group to the left. -/
def wrapsLeft (op : BinaryOperator) (left : Expr) : Bool :=
  if op = .pow then ofExpr left ≤ power
  else if op.isComparison then ofExpr left ≤ comparison
  else ofExpr left < ofOperator op

def wrapsRight (op : BinaryOperator) (right : Expr) : Bool :=
  -- The exponent of a power may have a sign of its own.
  if op = .pow then ofExpr right < unary
  else if op.isComparison then ofExpr right ≤ comparison
  else ofExpr right ≤ ofOperator op

/-- Whether the operand of a unary operator needs parentheses. They keep a minus sign apart from a
number literal. -/
def wrapsOperand (op : UnaryOperator) (operand : Expr) : Bool :=
  match op with
  | .neg => operand.isNumericLiteral || ofExpr operand < unary
  | .not => ofExpr operand < not

def wrapsBase (base : Expr) : Bool :=
  ofExpr base < atom

end Precedence

end NumericPython
