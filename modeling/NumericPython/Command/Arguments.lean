set_option autoImplicit false

namespace NumericPython

inductive Emit where
  | python
  | ast
deriving DecidableEq

def Emit.ofName? : String → Option Emit
  | "python" => some .python
  | "ast" => some .ast
  | _ => none

def Emit.extension : Emit → String
  | .python => "py"
  | .ast => "json"

inductive MessageFormat where
  | human
  | short
deriving DecidableEq

def MessageFormat.ofName? : String → Option MessageFormat
  | "human" => some .human
  | "short" => some .short
  | _ => none

inductive HelpTopic where
  | program
  | translate
  | check
  | help
deriving DecidableEq

inductive Command where
  | translate (files : List String) (emit : Emit) (config outDir : Option String)
  | check (files : List String) (format : MessageFormat)
  | version
  | help (topic : HelpTopic) (isLong : Bool)
deriving DecidableEq

namespace Command

inductive Argument where
  | file (path : String)
  | long (name : String) (value : Option String)
  | short (letter : Char) (value : Option String)
  | separator
deriving DecidableEq

def Argument.ofText (text : String) : Argument :=
  match text.toList with
  | ['-', '-'] => .separator
  | '-' :: '-' :: cs =>
    let name := String.ofList (cs.takeWhile (· != '='))
    match cs.dropWhile (· != '=') with
    | _ :: value => .long name (some (String.ofList value))
    | [] => .long name none
  | ['-'] => .file text
  | '-' :: letter :: cs =>
    match cs with
    | [] => .short letter none
    | '=' :: value => .short letter (some (String.ofList value))
    | value => .short letter (some (String.ofList value))
  | _ => .file text

def Argument.option? : Argument → Option (String × Option String)
  | .long name value => some (name, value)
  | .short 'o' value => some ("out-dir", value)
  | _ => none

structure Given where
  files : List String
  options : List (String × String)

inductive Reading where
  | given (given : Given)
  | help (isLong : Bool)

def Given.setOption (given : Given) (isValue : String → String → Bool) (name value : String) :
    Option Given :=
  -- Some options have a fixed choice of values, and no value is empty.
  if value.isEmpty || !isValue name value || (given.options.lookup name).isSome then none
  else some { given with options := given.options ++ [(name, value)] }

def Given.addFile (given : Given) (path : String) : Option Given :=
  if path.isEmpty then none else some { given with files := given.files ++ [path] }

/-- Reads on in the arguments of a command that knows the options `known`. `pending` is the option
whose value comes next. Fails on a wrong argument. -/
def readArguments (known : List String) (isValue : String → String → Bool) (given : Given)
    (pending : Option String) : List String → Option Reading
  | [] => if pending.isSome then none else some (.given given)
  | text :: rest =>
    match pending, Argument.ofText text with
    -- Nothing that looks like an option is taken for the value of one.
    | some name, .file value =>
      (given.setOption isValue name value).bind fun extended =>
        readArguments known isValue extended none rest
    | some _, _ => none
    | none, .file path =>
      (given.addFile path).bind fun extended => readArguments known isValue extended none rest
    | none, .separator => (rest.foldlM Given.addFile given).map .given
    | none, .short 'h' _ => some (.help false)
    | none, .long "help" none => some (.help true)
    | none, argument =>
      match argument.option? with
      | none => none
      | some (name, value?) =>
        if known.contains name then
          match value? with
          | none => readArguments known isValue given (some name) rest
          | some value =>
            (given.setOption isValue name value).bind fun extended =>
              readArguments known isValue extended none rest
        else none

def translateOptions : List String := ["emit", "config", "out-dir"]

def checkOptions : List String := ["message-format"]

def isValue (name value : String) : Bool :=
  -- Of most options any text will do.
  if name = "emit" then (Emit.ofName? value).isSome
  else if name = "message-format" then (MessageFormat.ofName? value).isSome
  else true

def ofTranslate (arguments : List String) : Option Command :=
  match readArguments translateOptions isValue ⟨[], []⟩ none arguments with
  | some (.given ⟨first :: files, options⟩) =>
    some (.translate (first :: files)
      (((options.lookup "emit").bind Emit.ofName?).getD .python)
      (options.lookup "config") (options.lookup "out-dir"))
  | some (.help isLong) => some (.help .translate isLong)
  | _ => none

def ofCheck (arguments : List String) : Option Command :=
  match readArguments checkOptions isValue ⟨[], []⟩ none arguments with
  | some (.given ⟨first :: files, options⟩) =>
    some (.check (first :: files)
      (((options.lookup "message-format").bind MessageFormat.ofName?).getD .human))
  | some (.help isLong) => some (.help .check isLong)
  | _ => none

def ofHelp : List String → Option Command
  | [] => some (.help .program true)
  | ["translate"] => some (.help .translate true)
  | ["check"] => some (.help .check true)
  | ["help"] => some (.help .help true)
  | _ => none

def ofArguments? : List String → Option Command
  | "translate" :: rest => ofTranslate rest
  | "check" :: rest => ofCheck rest
  | "help" :: rest => ofHelp rest
  | first :: _ =>
    match Argument.ofText first with
    | .long "version" none | .short 'V' _ => some .version
    | .long "help" none => some (.help .program true)
    | .short 'h' _ => some (.help .program false)
    | _ => none
  | [] => none

end Command

end NumericPython
