import NumericPython.Ast.Name
import NumericPython.Ast.Operator
import NumericPython.Binary64.Basic

set_option autoImplicit false

namespace NumericPython

inductive Expr where
  | integer (value : Int64)
  | float (value : Binary64)
  | complex (imaginary : Binary64)
  | boolean (value : Bool)
  | string (text : String)
  | nil
  | symbol (symbol : Symbol)
  | dotted (name : DottedName)
  | tuple (items : List Expr)
  | binary (op : BinaryOperator) (left right : Expr)
  | unary (op : UnaryOperator) (operand : Expr)
  | call (callee : Name) (args : List Expr)
  | range (start stop step : Expr)
  | indexed (base index : Expr) (more : List Expr)
  | slice (start stop step : Option Expr)
  | intrinsic (function : IntrinsicFunction) (args : List Expr)

namespace Expr

instance : Inhabited Expr := ⟨nil⟩

def kind : Expr → NodeKind
  | integer _ => .integer
  | float _ => .float
  | complex _ => .complex
  | boolean _ => .boolean
  | string _ => .string
  | nil => .nil
  | symbol _ => .symbol
  | dotted _ => .dottedName
  | tuple _ => .tuple
  | binary _ _ _ => .binaryOp
  | unary _ _ => .unaryOp
  | call _ _ => .functionCall
  | range _ _ _ => .range
  | indexed _ _ _ => .indexed
  | slice _ _ _ => .slice
  | intrinsic _ _ => .intrinsic

def isNumericLiteral : Expr → Bool
  | integer _ | float _ | complex _ => true
  | _ => false

def ofName : Name → Expr
  | .symbol s => symbol s
  | .dotted name => dotted name

def subscript (base : Expr) : List Expr → Except Malformed Expr
  | [] => .error .emptyIndices
  | index :: more => .ok (indexed base index more)

def intrinsicCall (function : IntrinsicFunction) (args : List Expr) : Except Malformed Expr :=
  if function = .range then .error (.dedicatedNode function)
  else if function.accepts args.length then .ok (intrinsic function args)
  else .error (.arity function args.length)

/-- The node of a call of an intrinsic. A range without a start begins at zero, and one without a
step counts by one. -/
def ofIntrinsic (function : IntrinsicFunction) (args : List Expr) : Except Malformed Expr :=
  match function, args with
  | .range, [stop] => .ok (range (integer 0) stop (integer 1))
  | .range, [start, stop] => .ok (range start stop (integer 1))
  | .range, [start, stop, step] => .ok (range start stop step)
  | .range, args => .error (.arity .range args.length)
  | function, args => intrinsicCall function args

mutual

def same : Expr → Expr → Bool
  | integer a, integer b => a == b
  | float a, float b => a == b
  | complex a, complex b => a == b
  | boolean a, boolean b => a == b
  | string a, string b => a == b
  | nil, nil => true
  | symbol a, symbol b => a == b
  | dotted a, dotted b => a == b
  | tuple a, tuple b => sameAll a b
  | binary p a b, binary q c d => p == q && same a c && same b d
  | unary p a, unary q b => p == q && same a b
  | call f a, call g b => f == g && sameAll a b
  | range a b c, range d e f => same a d && same b e && same c f
  | indexed a b c, indexed d e f => same a d && same b e && sameAll c f
  | slice a b c, slice d e f => sameOption a d && sameOption b e && sameOption c f
  | intrinsic f a, intrinsic g b => f == g && sameAll a b
  | _, _ => false

def sameAll : List Expr → List Expr → Bool
  | [], [] => true
  | a :: as, b :: bs => same a b && sameAll as bs
  | _, _ => false

def sameOption : Option Expr → Option Expr → Bool
  | none, none => true
  | some a, some b => same a b
  | _, _ => false

end

mutual

theorem same_iff : ∀ {a b : Expr}, same a b = true ↔ a = b
  | a, b => by
    cases a <;> cases b <;>
      simp [same, same_iff, sameAll_iff, sameOption_iff, and_assoc]

theorem sameAll_iff : ∀ {as bs : List Expr}, sameAll as bs = true ↔ as = bs
  | [], [] => by simp [sameAll]
  | [], _ :: _ => by simp [sameAll]
  | _ :: _, [] => by simp [sameAll]
  | a :: as, b :: bs => by simp [sameAll, same_iff, sameAll_iff]

theorem sameOption_iff : ∀ {a b : Option Expr}, sameOption a b = true ↔ a = b
  | none, none => by simp [sameOption]
  | none, some _ => by simp [sameOption]
  | some _, none => by simp [sameOption]
  | some a, some b => by simp [sameOption, same_iff]

end

instance : DecidableEq Expr := fun a b => decidable_of_iff (same a b = true) same_iff

end Expr

end NumericPython
