import NumericPython.Text.Row

set_option autoImplicit false

namespace NumericPython

namespace Problem

inductive Cause where
  | unexpected (token : String)
  | missing (expected found : String)
  | unclosed (opening closing : Char) (openedAt : Nat)
  | malformed (construct hint : String)
  | aborted (reason : String)
deriving DecidableEq

def Cause.code : Cause → String
  | unexpected _ => "syntax::unexpected"
  | missing _ _ => "syntax::missing"
  | unclosed _ _ _ => "syntax::unclosed"
  | malformed _ _ => "syntax::malformed"
  | aborted _ => "syntax::aborted"

def Cause.message : Cause → String
  | unexpected token => "unexpected `" ++ token ++ "`"
  | missing expected found => "expected `" ++ expected ++ "`, found `" ++ found ++ "`"
  | unclosed opening _ _ => "`" ++ opening.toString ++ "` is never closed"
  | malformed construct _ => "malformed " ++ construct
  | aborted reason => "the parser gave up: " ++ reason

def Cause.help? : Cause → Option String
  | missing expected _ => some ("insert `" ++ expected ++ "` here")
  | unclosed _ closing _ => some ("add the matching `" ++ closing.toString ++ "`")
  | malformed _ hint => some hint
  | unexpected _ | aborted _ => none

structure Mark where
  offset : Nat
  length : Nat
  text : String
  isPrimary : Bool
deriving DecidableEq

end Problem

structure Problem where
  cause : Problem.Cause
  offset : Nat
  length : Nat
deriving DecidableEq

namespace Problem

def message (problem : Problem) : String :=
  problem.cause.message

def marks (problem : Problem) : List Mark :=
  let here (text : String) : Mark := ⟨problem.offset, problem.length, text, true⟩
  match problem.cause with
  | .unclosed opening _ openedAt =>
    [⟨openedAt, opening.utf8Size, "opened here", false⟩, here "expected the closing bracket here"]
  | .missing expected _ => [here ("`" ++ expected ++ "` belongs here")]
  | .malformed construct _ => [here ("in this " ++ construct)]
  | .unexpected _ => [here "not valid here"]
  | .aborted _ => []

structure Location where
  line : Nat
  column : Nat
deriving DecidableEq

def Location.advance (place : Location) : Nat → List Char → Location
  | _, [] => place
  | bytes, c :: cs =>
    if c.utf8Size ≤ bytes then
      let next : Location :=
        if c = '\n' then ⟨place.line + 1, 1⟩ else ⟨place.line, place.column + 1⟩
      next.advance (bytes - c.utf8Size) cs
    else place

def locate (text : List Char) (offset : Nat) : Location :=
  -- One past the end of the text is on its last line.
  (⟨1, 1⟩ : Location).advance offset text

/-- The report of a problem on one line, with a line feed at its end. Of the renderer that writes it
is assumed that its short style is one header for each primary mark, without a place if there is no
mark, that columns count characters, and that it does not fail for marks inside the text. -/
def short (file : String) (text : List Char) (problem : Problem) : String :=
  let place :=
    match problem.marks.find? (·.isPrimary) with
    | some mark =>
      let location := locate text mark.offset
      file ++ ":" ++ toString location.line ++ ":" ++ toString location.column ++ ": "
    | none => ""
  place ++ "error[" ++ problem.cause.code ++ "]: " ++ problem.message ++ "\n"

end Problem

end NumericPython
