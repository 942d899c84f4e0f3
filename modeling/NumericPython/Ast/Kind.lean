set_option autoImplicit false

namespace NumericPython

inductive NodeKind where
  | integer
  | float
  | complex
  | boolean
  | string
  | nil
  | symbol
  | dottedName
  | tuple
  | binaryOp
  | unaryOp
  | functionCall
  | range
  | indexed
  | slice
  | intrinsic
  | assign
  | augAssign
  | returnStmt
  | print
  | comment
  | pragma
  | emptyLine
  | pass
  | importStmt
  | ifStmt
  | forLoop
  | whileLoop
  | functionDef
  | classDef
  | exprStmt
  | argument
  | valuedArgument
  | block
  | foreignFunction
  | foreignModule
  | foreignFunctionInterface
  | foreignModuleInterface
deriving DecidableEq

def NodeKind.name : NodeKind → String
  | integer => "Integer"
  | float => "Float"
  | complex => "Complex"
  | boolean => "Boolean"
  | string => "String"
  | nil => "Nil"
  | symbol => "Symbol"
  | dottedName => "DottedName"
  | tuple => "Tuple"
  | binaryOp => "BinaryOp"
  | unaryOp => "UnaryOp"
  | functionCall => "FunctionCall"
  | range => "Range"
  | indexed => "Indexed"
  | slice => "Slice"
  | intrinsic => "Intrinsic"
  | assign => "Assign"
  | augAssign => "AugAssign"
  | returnStmt => "Return"
  | print => "Print"
  | comment => "Comment"
  | pragma => "Pragma"
  | emptyLine => "EmptyLine"
  | pass => "Pass"
  | importStmt => "Import"
  | ifStmt => "If"
  | forLoop => "For"
  | whileLoop => "While"
  | functionDef => "FunctionDef"
  | classDef => "ClassDef"
  | exprStmt => "ExprStmt"
  | argument => "Argument"
  | valuedArgument => "ValuedArgument"
  | block => "Block"
  | foreignFunction => "ForeignFunction"
  | foreignModule => "ForeignModule"
  | foreignFunctionInterface => "ForeignFunctionInterface"
  | foreignModuleInterface => "ForeignModuleInterface"

end NumericPython
