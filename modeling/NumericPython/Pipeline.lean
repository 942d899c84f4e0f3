import NumericPython.Directive
import NumericPython.Dump.Node
import NumericPython.Files.Fault
import NumericPython.Layout.Convert
import NumericPython.Lowering.Stmt
import NumericPython.Printing.Node
import NumericPython.Problem.Find

set_option autoImplicit false

namespace NumericPython

/-- What a grammar makes of a source text: a raw tree, or the reason why there is none. -/
abbrev Grammar := String → Except String RawTree

structure Parsed where
  tree : Option Tree
  problems : List Problem

namespace Parsed

def ofRaw (text : String) (raw : RawTree) : Parsed :=
  let source := Source.ofString text
  ⟨some (raw.toTree source), Problem.ofTree source raw⟩

def ofText (grammar : Grammar) (text : String) : Parsed :=
  match grammar text with
  | .ok raw => ofRaw text raw
  | .error reason => ⟨none, [⟨.aborted reason, 0, 0⟩]⟩

def isOk (parsed : Parsed) : Bool :=
  parsed.tree.isSome && parsed.problems.isEmpty

def accepted (parsed : Parsed) : Except FrontEndError Tree :=
  match Problem.refusal? parsed.problems, parsed.tree with
  | some refusal, _ => .error refusal
  | none, some tree => .ok tree
  | none, none => .error (.failed "no syntax tree produced")

end Parsed

inductive UnitError where
  | problems (path text : String) (found : List Problem)
  | lower (path : String) (cause : LowerError)
  | print (cause : PrintError)
  | unreadable (path : String) (fault : FileFault)

namespace UnitError

def message : UnitError → String
  | problems path _ found => path ++ " has " ++ toString found.length ++ " syntax error(s)"
  | lower path cause => "cannot translate " ++ path ++ ": " ++ cause.message
  | print cause => cause.message
  | unreadable path fault => "cannot read " ++ path ++ ": " ++ fault.message

def code : UnitError → String
  | problems _ _ _ => "driver::parse"
  | lower _ _ => "driver::lower"
  | print cause => cause.code
  | unreadable _ _ => "driver::io"

def help? : UnitError → Option String
  | print cause => cause.help?
  | _ => none

def label? : UnitError → Option (Span × String)
  | lower _ cause => cause.span?.map fun span => (span, "cannot be translated")
  | _ => none

def short (path : String) : UnitError → String
  | problems file text found => String.join (found.map (Problem.short file text.toList))
  | error => path ++ ": error: " ++ error.message ++ "\n"

end UnitError

structure Processed where
  lowered : LoweredModule
  output : String

namespace Processed

def lowerParsed (path text : String) (parsed : Parsed) : Except UnitError LoweredModule :=
  match parsed.tree, parsed.problems with
  | some tree, [] => (LoweredModule.ofTree Directive.frontEnd tree).mapError (.lower path)
  | _, found => .error (.problems path text found)

def ofParsed (settings : Settings) (path text : String) (parsed : Parsed) :
    Except UnitError Processed := do
  let lowered ← lowerParsed path text parsed
  let output ← ((Node.block lowered.body).print settings).mapError .print
  .ok { lowered, output }

def ofText (grammar : Grammar) (settings : Settings) (path text : String) :
    Except UnitError Processed :=
  ofParsed settings path text (.ofText grammar text)

def dump (processed : Processed) : Json :=
  .object
    [("body", .array (Dump.stmts processed.lowered.body)),
     ("intrinsic_imports", Dump.importTable processed.lowered.intrinsicImports)]

end Processed

end NumericPython
