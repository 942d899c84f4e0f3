import NumericPython.Settings.Basic
import NumericPython.Toml.Document

set_option autoImplicit false

namespace NumericPython.Settings

open Toml (Statement)

def Value.ofToml : Toml.Value → Value
  | .integer n => .integer n
  | .string s => .text s
  | _ => .other

def ofTable? : Toml.Value → Option Settings
  | .table _ entries => ofValues? (entries.map fun (name, value) => (name, Value.ofToml value))
  | .array items => ofList? (items.map Value.ofToml)
  | _ => none

structure Progress where
  entries : List (String × Toml.Value)
  path : List String

/-- Takes one line into account. A table has one header, and no header lies deeper than one key. -/
def advance (progress : Progress) : Statement → Option Progress
  | .header [name] =>
    if (progress.entries.lookup name).isSome then none
    else some ⟨progress.entries ++ [(name, .table true [])], [name]⟩
  | .header _ | .elementHeader _ => none
  | .entry path value =>
    (Toml.insertPath progress.entries (progress.path ++ path) value).map fun entries =>
      { progress with entries }

def ofText? (text : String) : Option Settings := do
  let statements ← Toml.read? text
  let progress ← statements.foldlM advance ⟨[], []⟩
  match progress.entries with
  | [] => some {}
  | [("printer", value)] => ofTable? value
  | _ => none

end NumericPython.Settings
