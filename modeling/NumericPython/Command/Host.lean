import NumericPython.Files.Store
import NumericPython.Pipeline

set_option autoImplicit false

namespace NumericPython

structure Host (m : Type → Type) where
  readText : String → m (Except FileFault String)
  isFile : String → m Bool
  createDirectories : String → m (Except FileFault Unit)
  writeText : String → String → m (Except FileFault Unit)
  parse : String → String → m (Except String RawTree)
  /-- The report of an error in a file, drawn for people. -/
  draw : String → UnitError → String
  writeOut : String → m Unit
  writeErr : String → m Unit

structure Machine where
  files : Files
  out : String
  err : String

namespace Host

def change (f : Files → Except FileFault Files) : StateM Machine (Except FileFault Unit) := do
  match f (← get).files with
  | .ok files =>
    modify fun machine => { machine with files }
    pure (.ok ())
  | .error fault => pure (.error fault)

-- A machine that cannot draw shows people the short form.
def ofFiles (grammar : Grammar) (draw : String → UnitError → String := UnitError.short) :
    Host (StateM Machine) where
  readText path := return (← get).files.read path
  isFile path := return (← get).files.isFile path
  createDirectories path := change (·.createDirectories path)
  writeText path text := change (·.write path text)
  parse _ text := pure (grammar text)
  draw
  writeOut text := modify fun machine => { machine with out := machine.out ++ text }
  writeErr text := modify fun machine => { machine with err := machine.err ++ text }

end Host

end NumericPython
