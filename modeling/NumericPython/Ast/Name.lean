import NumericPython.Ast.Malformed
import NumericPython.Text.Blank

set_option autoImplicit false

namespace NumericPython

inductive DataType where
  | int
  | float
  | complex
  | bool
  | str
deriving DecidableEq

namespace DataType

def name : DataType → String
  | int => "int"
  | float => "float"
  | complex => "complex"
  | bool => "bool"
  | str => "str"

def all : List DataType :=
  [int, float, complex, bool, str]

end DataType

structure VariableInfo where
  dtype : DataType
  rank : UInt8
deriving DecidableEq

def VariableInfo.isScalar (info : VariableInfo) : Bool :=
  info.rank == 0

structure Symbol where
  name : String
  info : Option VariableInfo
deriving DecidableEq

namespace Symbol

def plain (name : String) : Symbol := ⟨name, none⟩

def isArray (symbol : Symbol) : Bool :=
  symbol.info.any (!·.isScalar)

end Symbol

def isNamePart (part : String) : Bool :=
  !part.isEmpty && !part.toList.contains '.'

structure DottedName where
  parts : List String
  two_le : 2 ≤ parts.length
  parts_valid : parts.all isNamePart = true
deriving DecidableEq

namespace DottedName

def ofParts (parts : List String) : Except Malformed DottedName :=
  if two_le : 2 ≤ parts.length then
    match invalid : parts.find? (!isNamePart ·) with
    | some part => .error (.invalidNamePart part)
    | none => .ok ⟨parts, two_le, by simpa using invalid⟩
  else .error (.shortDottedName parts.length)

def head (name : DottedName) : String :=
  name.parts.head (List.ne_nil_of_length_pos (Nat.lt_of_lt_of_le Nat.zero_lt_two name.two_le))

def last (name : DottedName) : String :=
  name.parts.getLast (List.ne_nil_of_length_pos (Nat.lt_of_lt_of_le Nat.zero_lt_two name.two_le))

def text (name : DottedName) : String :=
  Text.joinWith "." name.parts

end DottedName

inductive Name where
  | symbol (symbol : Symbol)
  | dotted (name : DottedName)
deriving DecidableEq

namespace Name

def ofParts : List String → Except Malformed Name
  | [] => .error .emptyName
  | [part] =>
    if isNamePart part then .ok (.symbol (.plain part)) else .error (.invalidNamePart part)
  | parts => (DottedName.ofParts parts).map .dotted

def head : Name → String
  | symbol s => s.name
  | dotted name => name.head

def last : Name → String
  | symbol s => s.name
  | dotted name => name.last

def text : Name → String
  | symbol s => s.name
  | dotted name => name.text

end Name

end NumericPython
