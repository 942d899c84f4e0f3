import NumericPython.Literal.Quoted
import NumericPython.Printing.Error
import NumericPython.Printing.Precedence
import NumericPython.Text.Blank

set_option autoImplicit false

namespace NumericPython.Printing

abbrev Printed (α : Type) := Except PrintError α

def parenthesized (wrap : Bool) (text : String) : String :=
  if wrap then "(" ++ text ++ ")" else text

def commaSeparated (texts : List String) : String :=
  Text.joinWith ", " texts

def floatText (value : Binary64) : Printed String :=
  if value.isFinite then .ok (value.text .source) else .error (.nonFinite value)

def tupleText (items : List String) : String :=
  match items with
  | [item] => "(" ++ item ++ ",)"
  | items => "(" ++ commaSeparated items ++ ")"

def callText (callee : String) (args : List String) : String :=
  callee ++ "(" ++ commaSeparated args ++ ")"

def intrinsicText (function : IntrinsicFunction) (args : List Expr) (texts : List String) :
    String :=
  -- The shape of an array is an attribute, and one of its extents an index of that.
  match function, args, texts with
  | .shape, [array], [text] => parenthesized (Precedence.wrapsBase array) text ++ ".shape"
  | .shape, [array, _], [text, axis] =>
    parenthesized (Precedence.wrapsBase array) text ++ ".shape[" ++ axis ++ "]"
  | function, _, texts => callText function.name texts

mutual

def exprText : Expr → Printed String
  | .integer value => .ok (toString value.toInt)
  | .float value => floatText value
  | .complex imaginary => (floatText imaginary).map (· ++ "j")
  | .boolean value => .ok (if value then "True" else "False")
  | .string text => .ok (String.ofList (Quoted.encode text.toList))
  | .nil => .ok "None"
  | .symbol s => .ok s.name
  | .dotted name => .ok name.text
  | .tuple items => (exprTexts items).map tupleText
  | .binary op left right => do
    let leftText ← exprText left
    let rightText ← exprText right
    .ok (parenthesized (Precedence.wrapsLeft op left) leftText ++ " " ++ op.text ++ " " ++
      parenthesized (Precedence.wrapsRight op right) rightText)
  | .unary op operand => do
    let text ← exprText operand
    let wrapped := parenthesized (Precedence.wrapsOperand op operand) text
    match op with
    | .neg => .ok ("-" ++ wrapped)
    | .not => .ok ("not " ++ wrapped)
  | .call callee args => (exprTexts args).map (callText callee.text)
  | .range start stop step => do
    let startText ← exprText start
    let stopText ← exprText stop
    let stepText ← exprText step
    .ok (callText "range" [startText, stopText, stepText])
  | .indexed base index more => do
    let baseText ← exprText base
    let first ← (sliceText? index).getD (exprText index)
    let others ← indexTexts more
    .ok (parenthesized (Precedence.wrapsBase base) baseText ++ "[" ++
      commaSeparated (first :: others) ++ "]")
  -- Slices that are indices are taken care of in `.indexed`.
  | .slice _ _ _ => .error (.unprintable .slice)
  | .intrinsic function args => (exprTexts args).map (intrinsicText function args)

def exprTexts : List Expr → Printed (List String)
  | [] => .ok []
  | e :: rest => do
    let text ← exprText e
    let others ← exprTexts rest
    .ok (text :: others)

def sliceText? : Expr → Option (Printed String)
  | .slice start stop step => some do
    let startText ← partText start
    let stopText ← partText stop
    let stepText ← partText step
    .ok (startText ++ ":" ++ stopText ++ (if step.isSome then ":" ++ stepText else ""))
  | _ => none

def indexTexts : List Expr → Printed (List String)
  | [] => .ok []
  | index :: rest => do
    let text ← (sliceText? index).getD (exprText index)
    let others ← indexTexts rest
    .ok (text :: others)

def partText : Option Expr → Printed String
  | none => .ok ""
  | some e => exprText e

end

end NumericPython.Printing
