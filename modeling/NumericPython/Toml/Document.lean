import NumericPython.Literal.Quoted
import NumericPython.Toml.Scalar

set_option autoImplicit false

/-!
Documents in the syntax of TOML: lines that open a table and lines that give a key a value. Reading
keeps them in their order and leaves it to the reader of the document what tables they make.
-/

namespace NumericPython.Toml

inductive Value where
  | string (text : String)
  | integer (value : Int)
  | boolean (value : Bool)
  | float
  | datetime
  | array (items : List Value)
  | table (isOpen : Bool) (entries : List (String × Value))

/-- Gives the key at the end of a path a value, making tables on the way. A key has one value. -/
def insertPath (entries : List (String × Value)) (path : List String) (value : Value) :
    Option (List (String × Value)) :=
  match path with
  | [] => none
  | [key] => if (entries.lookup key).isSome then none else some (entries ++ [(key, value)])
  | key :: rest =>
    match entries.lookup key with
    | none => (insertPath [] rest value).map fun inner => entries ++ [(key, .table true inner)]
    | some (.table true inner) =>
      (insertPath inner rest value).map fun inner =>
        entries.map fun entry => if entry.1 = key then (key, .table true inner) else entry
    | some _ => none

inductive Statement where
  | header (path : List String)
  | elementHeader (path : List String)
  | entry (path : List String) (value : Value)

abbrev Reader := StateT (List Char) Option

namespace Reader

def next : Reader Char
  | [] => none
  | c :: cs => some (c, cs)

def isAt (text : String) : Reader Bool := fun cs =>
  some (text.toList.isPrefixOf cs, cs)

def expect (text : String) : Reader Unit := fun cs =>
  if text.toList.isPrefixOf cs then some ((), cs.drop text.length) else none

def takeWhile (p : Char → Bool) : Reader (List Char) := fun cs =>
  some (cs.takeWhile p, cs.dropWhile p)

def ofOption {α : Type} (value : Option α) : Reader α := fun cs =>
  value.map fun x => (x, cs)

def isBlank (c : Char) : Bool :=
  c = ' ' || c = '\t'

def blanks : Reader Unit := do
  let _ ← takeWhile isBlank

def isTextChar (c : Char) : Bool :=
  c = '\t' || (0x20 ≤ c.toNat && c.toNat != 0x7F)

def newline? : Reader Bool := fun cs =>
  match cs with
  | '\n' :: rest => some (true, rest)
  | '\r' :: '\n' :: rest => some (true, rest)
  | cs => some (false, cs)

def comment : Reader Unit := do
  if ← isAt "#" then
    let _ ← takeWhile isTextChar

def lineEnd : Reader Unit := do
  blanks
  comment
  if !(← newline?) then
    let rest ← get
    if !rest.isEmpty then failure

def trivia : Nat → Reader Unit
  | 0 => failure
  | fuel + 1 => do
    blanks
    comment
    if ← newline? then trivia fuel

def unicodeChar (count : Nat) : Reader Char := do
  let cs ← get
  let digits := cs.take count
  set (cs.drop count)
  if digits.length = count && digits.all Char.isAlphanum then
    let code ← ofOption (Literal.natural? 16 (digits.map Char.toLower))
    ofOption (Quoted.charOfCode? code)
  else failure

def escaped : Reader Char := do
  match ← next with
  | 'b' => pure '\x08'
  | 't' => pure '\t'
  | 'n' => pure '\n'
  | 'f' => pure '\x0c'
  | 'r' => pure '\r'
  | '"' => pure '"'
  | '\\' => pure '\\'
  | 'u' => unicodeChar 4
  | 'U' => unicodeChar 8
  | _ => failure

def basicRest : Nat → Reader (List Char)
  | 0 => failure
  | fuel + 1 => do
    match ← next with
    | '"' => pure []
    | '\\' => return (← escaped) :: (← basicRest fuel)
    | c => if isTextChar c then return c :: (← basicRest fuel) else failure

/-- The end of a string over several lines: three quotes, and up to two before them that belong to
the string. Fails elsewhere. -/
def multilineEnd (quote : Char) : Reader (List Char) := do
  let quotes ← takeWhile (· == quote)
  if 3 ≤ quotes.length && quotes.length ≤ 5 then pure (quotes.drop 3) else failure

def withoutSpace : List Char → List Char
  | '\n' :: cs => withoutSpace cs
  | '\r' :: '\n' :: cs => withoutSpace cs
  | c :: cs => if isBlank c then withoutSpace cs else c :: cs
  | [] => []

def lineContinuation? : Reader Bool := fun cs =>
  match blanks cs with
  | some (_, rest) =>
    match newline? rest with
    | some (true, rest) => some (true, withoutSpace rest)
    | _ => some (false, cs)
  | none => some (false, cs)

def multilineRest (quote : Char) (hasEscapes : Bool) : Nat → Reader (List Char)
  | 0 => failure
  | fuel + 1 => do
    if ← isAt (String.ofList [quote, quote, quote]) then multilineEnd quote
    else if ← newline? then return '\n' :: (← multilineRest quote hasEscapes fuel)
    else
      let c ← next
      if hasEscapes && c = '\\' then
        if ← lineContinuation? then multilineRest quote hasEscapes fuel
        else return (← escaped) :: (← multilineRest quote hasEscapes fuel)
      else if isTextChar c then return c :: (← multilineRest quote hasEscapes fuel)
      else failure

def literalRest : Reader (List Char) := do
  let text ← takeWhile fun c => isTextChar c && c != '\''
  expect "'"
  pure text

def multiline (fuel : Nat) (quote : Char) (hasEscapes : Bool) : Reader (List Char) := do
  expect (String.ofList [quote, quote, quote])
  let _ ← newline?
  multilineRest quote hasEscapes fuel

def isBareKeyChar (c : Char) : Bool :=
  c.isAlphanum || c = '_' || c = '-'

def key (fuel : Nat) : Reader String := do
  if ← isAt "\"" then
    expect "\""
    return String.ofList (← basicRest fuel)
  else if ← isAt "'" then
    expect "'"
    return String.ofList (← literalRest)
  else
    let name ← takeWhile isBareKeyChar
    if name.isEmpty then failure else return String.ofList name

def keys : Nat → Reader (List String)
  | 0 => failure
  | fuel + 1 => do
    let first ← key fuel
    blanks
    if ← isAt "." then
      expect "."
      blanks
      return first :: (← keys fuel)
    else pure [first]

/-- The most parts that a key has, and the most arrays and inline tables around a value. -/
def maxDepth : Nat := 79

def path (fuel : Nat) : Reader (List String) := do
  let parts ← keys fuel
  if parts.length ≤ maxDepth then pure parts else failure

def isScalarChar (c : Char) : Bool :=
  c.isAlphanum || c = '+' || c = '-' || c = '_' || c = '.' || c = ':'

def scalar : Reader Value := do
  let start ← takeWhile isScalarChar
  let rest ← get
  let text ←
    match afterDate? start, rest with
    | some [], ' ' :: c :: _ =>
      if c.isDigit then do
        expect " "
        let time ← takeWhile isScalarChar
        pure (start ++ ' ' :: time)
      else pure start
    | _, _ => pure start
  if text = "true".toList then pure (.boolean true)
  else if text = "false".toList then pure (.boolean false)
  else
    match integer? text with
    | some n => pure (.integer n)
    | none =>
      if isFloat text then pure .float
      else if isDatetime text then pure .datetime
      else failure

def inner : Nat → Reader Nat
  | 0 => failure
  | depth + 1 => pure depth

mutual

def value : Nat → Nat → Reader Value
  | 0, _ => failure
  | fuel + 1, depth => do
    if ← isAt "\"\"\"" then return .string (String.ofList (← multiline fuel '"' true))
    else if ← isAt "'''" then return .string (String.ofList (← multiline fuel '\'' false))
    else if ← isAt "\"" then
      expect "\""
      return .string (String.ofList (← basicRest fuel))
    else if ← isAt "'" then
      expect "'"
      return .string (String.ofList (← literalRest))
    else if ← isAt "[" then
      expect "["
      return .array (← items fuel (← inner depth))
    else if ← isAt "\x7b" then
      expect "\x7b"
      let depth ← inner depth
      blanks
      if ← isAt "\x7d" then
        expect "\x7d"
        return .table false []
      else return .table false (← members fuel depth [])
    else scalar

def items : Nat → Nat → Reader (List Value)
  | 0, _ => failure
  | fuel + 1, depth => do
    trivia fuel
    if ← isAt "]" then
      expect "]"
      pure []
    else
      let item ← value fuel depth
      trivia fuel
      if ← isAt "," then
        expect ","
        return item :: (← items fuel depth)
      else
        expect "]"
        pure [item]

def members : Nat → Nat → List (String × Value) → Reader (List (String × Value))
  | 0, _, _ => failure
  | fuel + 1, depth, entries => do
    blanks
    let name ← path fuel
    expect "="
    blanks
    let item ← value fuel depth
    let extended ← ofOption (insertPath entries name item)
    blanks
    if ← isAt "," then
      expect ","
      members fuel depth extended
    else
      expect "\x7d"
      pure extended

end

def statement (fuel : Nat) : Reader Statement := do
  if ← isAt "[[" then
    expect "[["
    blanks
    let name ← path fuel
    expect "]]"
    pure (.elementHeader name)
  else if ← isAt "[" then
    expect "["
    blanks
    let name ← path fuel
    expect "]"
    pure (.header name)
  else
    let name ← path fuel
    expect "="
    blanks
    let item ← value fuel maxDepth
    pure (.entry name item)

def statements : Nat → Reader (List Statement)
  | 0 => failure
  | fuel + 1 => do
    trivia (fuel + 1)
    let rest ← get
    if rest.isEmpty then pure []
    else
      let first ← statement (fuel + 1)
      lineEnd
      return first :: (← statements fuel)

end Reader

def read? (text : String) : Option (List Statement) :=
  let cs :=
    match text.toList with
    | '\ufeff' :: cs => cs
    | cs => cs
  -- Each level of nesting and each line costs a character, so this is fuel enough.
  ((Reader.statements (cs.length + 2)).run cs).map Prod.fst

end NumericPython.Toml
