import NumericPython.Ast.Malformed
import NumericPython.FrontEnd

set_option autoImplicit false

namespace NumericPython

inductive LowerError where
  | unsupported (construct : String) (span : Span)
  | unknownOperator (token : String) (span : Span)
  | invalidLiteral (text : String) (span : Span)
  | malformed (cause : Malformed)
  | directive (cause : FrontEndError) (span : Span)
deriving DecidableEq

namespace LowerError

def message : LowerError → String
  | unsupported construct _ => "unsupported construct `" ++ construct ++ "`"
  | unknownOperator token _ => "unknown operator `" ++ token ++ "`"
  | invalidLiteral text _ => "invalid literal `" ++ text ++ "`"
  | malformed cause => cause.message
  | directive _ _ => "invalid pragma directive"

def code : LowerError → String
  | unsupported _ _ => "lower::unsupported_construct"
  | unknownOperator _ _ => "lower::unknown_operator"
  | invalidLiteral _ _ => "lower::invalid_literal"
  | malformed _ => "lower::malformed_node"
  | directive _ _ => "lower::directive"

def help? : LowerError → Option String
  | unsupported _ _ => some "only the numeric Python subset can be translated"
  | _ => none

def span? : LowerError → Option Span
  | unsupported _ span | unknownOperator _ span | invalidLiteral _ span | directive _ span =>
    some span
  | malformed _ => none

def label? : LowerError → Option String
  | unsupported _ _ => some "not supported"
  | unknownOperator _ _ => some "this operator cannot be translated"
  | invalidLiteral _ _ => some "invalid literal"
  | malformed _ => none
  | directive _ _ => some "in this pragma"

def ofTree (tree : Tree) : LowerError :=
  unsupported tree.kind.name tree.span

def missingField (kind : Kind) (span : Span) (field : String) : LowerError :=
  unsupported (kind.name ++ " without " ++ field) span

end LowerError

end NumericPython
