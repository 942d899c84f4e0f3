import NumericPython.Command.Arguments

set_option autoImplicit false

namespace NumericPython.HelpTopic

def lines (texts : List String) : String :=
  String.join (texts.map (· ++ "\n"))

def usage : String :=
  lines
    ["error: the command line is wrong",
     "",
     "Usage: heron <COMMAND>",
     "",
     "For more information, try '--help'."]

def programText : String :=
  lines
    ["Python subset translator",
     "",
     "Usage: heron <COMMAND>",
     "",
     "Commands:",
     "  translate  Translate source files",
     "  check      Check that source files can be translated",
     "  help       Print this message or the help of the given subcommand(s)",
     "",
     "Options:",
     "  -h, --help     Print help",
     "  -V, --version  Print version"]

def translateText : String :=
  lines
    ["Translate source files",
     "",
     "Usage: heron translate [OPTIONS] <FILES>...",
     "",
     "Arguments:",
     "  <FILES>...  Source files",
     "",
     "Options:",
     "      --emit <EMIT>        Output form [default: python] [possible values: python, ast]",
     "      --config <CONFIG>    Configuration file (defaults to heron.toml beside the first input)",
     "  -o, --out-dir <OUT_DIR>  Write one output file per input into this directory instead of stdout",
     "  -h, --help               Print help (see more with '--help')"]

def translateLongText : String :=
  lines
    ["Translate source files",
     "",
     "Usage: heron translate [OPTIONS] <FILES>...",
     "",
     "Arguments:",
     "  <FILES>...",
     "          Source files",
     "",
     "Options:",
     "      --emit <EMIT>",
     "          Output form",
     "          ",
     "          [default: python]",
     "",
     "          Possible values:",
     "          - python: Python source from the printer",
     "          - ast:    JSON dump of the lowered tree",
     "",
     "      --config <CONFIG>",
     "          Configuration file (defaults to heron.toml beside the first input)",
     "",
     "  -o, --out-dir <OUT_DIR>",
     "          Write one output file per input into this directory instead of stdout",
     "",
     "  -h, --help",
     "          Print help (see a summary with '-h')"]

def checkText : String :=
  lines
    ["Check that source files can be translated",
     "",
     "Usage: heron check [OPTIONS] <FILES>...",
     "",
     "Arguments:",
     "  <FILES>...  Source files",
     "",
     "Options:",
     "      --message-format <MESSAGE_FORMAT>",
     "          Diagnostic layout [default: human] [possible values: human, short]",
     "  -h, --help",
     "          Print help (see more with '--help')"]

def checkLongText : String :=
  lines
    ["Check that source files can be translated",
     "",
     "Usage: heron check [OPTIONS] <FILES>...",
     "",
     "Arguments:",
     "  <FILES>...",
     "          Source files",
     "",
     "Options:",
     "      --message-format <MESSAGE_FORMAT>",
     "          Diagnostic layout",
     "          ",
     "          [default: human]",
     "",
     "          Possible values:",
     "          - human: Labelled source excerpts",
     "          - short: One `file:line:col` line per syntax error",
     "",
     "  -h, --help",
     "          Print help (see a summary with '-h')"]

def helpText : String :=
  lines
    ["Print this message or the help of the given subcommand(s)",
     "",
     "Usage: heron help [COMMAND]...",
     "",
     "Arguments:",
     "  [COMMAND]...  Print help for the subcommand(s)"]

def text : HelpTopic → Bool → String
  | program, _ => programText
  | translate, false => translateText
  | translate, true => translateLongText
  | check, false => checkText
  | check, true => checkLongText
  | help, _ => helpText

end NumericPython.HelpTopic
