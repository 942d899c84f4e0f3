set_option autoImplicit false

namespace NumericPython

structure Settings where
  indentWidth : Nat := 4
  wrapperPrefix : String := "f2py_"
  arrayOrder : String := "F"
deriving DecidableEq, Inhabited

namespace Settings

inductive Value where
  | integer (value : Int)
  | text (text : String)
  | other
deriving DecidableEq

def set? (settings : Settings) (name : String) (value : Value) : Option Settings :=
  match name, value with
  | "indent_width", .integer n =>
    if 0 ≤ n && n < UInt64.size then some { settings with indentWidth := n.toNat } else none
  | "wrapper_prefix", .text text => some { settings with wrapperPrefix := text }
  | "array_order", .text text => some { settings with arrayOrder := text }
  | _, _ => none

def ofValues? (values : List (String × Value)) : Option Settings :=
  values.foldlM (fun settings (name, value) => settings.set? name value) {}

def names : List String :=
  ["indent_width", "wrapper_prefix", "array_order"]

/-- Settings given by values in their order; what exceeds them is ignored. -/
def ofList? (values : List Value) : Option Settings :=
  -- A list that is too short leaves the defaults.
  ofValues? (names.zip values)

end Settings

end NumericPython
