import NumericPython.Text.Blank

set_option autoImplicit false

namespace NumericPython

inductive Line where
  | blank
  | text (level : Nat) (content : String)
deriving DecidableEq

namespace Line

def render (width : Nat) : Line → String
  -- No spaces at the end of a line.
  | blank => ""
  | text level content => Text.spaces (level * width) ++ content

def renderAll (width : Nat) (lines : List Line) : String :=
  Text.joinWith "\n" (lines.map (render width))

def separated : List (List Line) → List Line
  | [] => []
  | [lines] => lines
  | lines :: next :: rest => lines ++ blank :: separated (next :: rest)

end Line

end NumericPython
