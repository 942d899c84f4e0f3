set_option autoImplicit false

namespace NumericPython.Quoted

def hexDigit (n : Nat) : Char :=
  Nat.digitChar n

def delimiter (text : List Char) : Char :=
  if text.contains '"' && !text.contains '\'' then '\'' else '"'

/-- Control characters: the first 32, and those from delete up to the end of the second block of
control characters. -/
def isControl (c : Char) : Bool :=
  c.toNat < 0x20 || (0x7F ≤ c.toNat && c.toNat < 0xA0)

def encodeChar (quote c : Char) : List Char :=
  if c = '\\' then ['\\', '\\']
  else if c = '\n' then ['\\', 'n']
  else if c = '\r' then ['\\', 'r']
  else if c = '\t' then ['\\', 't']
  else if c = quote then ['\\', c]
  else if isControl c then ['\\', 'x', hexDigit (c.toNat / 16), hexDigit (c.toNat % 16)]
  else [c]

def encode (text : List Char) : List Char :=
  let quote := delimiter text
  quote :: text.flatMap (encodeChar quote) ++ [quote]

inductive Fault where
  | malformed
  | marked (letters : String)
  | namedEscape
deriving DecidableEq

inductive State where
  | plain
  | escaped
  /-- `more` hexadecimal digits after the next one are missing. -/
  | hex (more code : Nat)
  /-- Up to `more` octal digits may follow. -/
  | octal (more code : Nat)

def charOfCode? (code : Nat) : Option Char :=
  if _h : code.isValidChar then some (Char.ofNat code) else none

def hexValue? (c : Char) : Option Nat :=
  if '0' ≤ c && c ≤ '9' then some (c.toNat - '0'.toNat)
  else if 'a' ≤ c && c ≤ 'f' then some (c.toNat - 'a'.toNat + 10)
  else if 'A' ≤ c && c ≤ 'F' then some (c.toNat - 'A'.toNat + 10)
  else none

def octalValue? (c : Char) : Option Nat :=
  if '0' ≤ c && c ≤ '7' then some (c.toNat - '0'.toNat) else none

def escape (c : Char) : Except Fault (List Char × State) :=
  match c with
  | '\n' => .ok ([], .plain)
  | '\\' | '\'' | '"' => .ok ([c], .plain)
  | 'a' => .ok (['\x07'], .plain)
  | 'b' => .ok (['\x08'], .plain)
  | 'f' => .ok (['\x0c'], .plain)
  | 'n' => .ok (['\n'], .plain)
  | 'r' => .ok (['\r'], .plain)
  | 't' => .ok (['\t'], .plain)
  | 'v' => .ok (['\x0b'], .plain)
  | 'x' => .ok ([], .hex 1 0)
  | 'u' => .ok ([], .hex 3 0)
  | 'U' => .ok ([], .hex 7 0)
  | 'N' => .error .namedEscape
  | c =>
    match octalValue? c with
    | some digit => .ok ([], .octal 2 digit)
    | none => .ok (['\\', c], .plain)

def finish (code : Nat) (next : State) : Except Fault (List Char × State) :=
  match charOfCode? code with
  | some c => .ok ([c], next)
  | none => .error .malformed

def plainStep (c : Char) : List Char × State :=
  if c = '\\' then ([], .escaped) else ([c], .plain)

def step (state : State) (c : Char) : Except Fault (List Char × State) :=
  match state with
  | .plain => .ok (plainStep c)
  | .escaped => escape c
  | .hex more code =>
    match hexValue? c with
    | none => .error .malformed
    | some digit =>
      match more with
      | 0 => finish (16 * code + digit) .plain
      | more + 1 => .ok ([], .hex more (16 * code + digit))
  | .octal more code =>
    match more, octalValue? c with
    | more + 1, some digit => .ok ([], .octal more (8 * code + digit))
    | _, _ => do
      let (done, _) ← finish code .plain
      let (out, next) := plainStep c
      .ok (done ++ out, next)

def stop : State → Except Fault (List Char)
  | .plain => .ok []
  | .octal _ code => (finish code .plain).map Prod.fst
  | .escaped | .hex _ _ => .error .malformed

def decodeFrom (state : State) : List Char → Except Fault (List Char)
  | [] => stop state
  | c :: cs => do
    let (out, next) ← step state c
    let rest ← decodeFrom next cs
    .ok (out ++ rest)

def decode (content : List Char) : Except Fault (List Char) :=
  decodeFrom .plain content

def between? (quote cs : List Char) : Option (List Char) :=
  if quote.isPrefixOf cs then
    let rest := cs.drop quote.length
    if quote.isSuffixOf rest then some (rest.take (rest.length - quote.length)) else none
  else none

def quotes : List (List Char) :=
  [['"', '"', '"'], ['\'', '\'', '\''], ['"'], ['\'']]

def read (literal : List Char) : Except Fault (List Char) :=
  let isQuote (c : Char) : Bool := c = '"' || c = '\''
  let marks := literal.takeWhile (!isQuote ·)
  let quoted := literal.dropWhile (!isQuote ·)
  if quoted.isEmpty then .error .malformed
  else if marks = [] || marks = ['u'] || marks = ['U'] then
    match quotes.findSome? (between? · quoted) with
    | some content => decode content
    | none => .error .malformed
  else .error (.marked (String.ofList marks))

end NumericPython.Quoted
