import NumericPython.Literal.Number

set_option autoImplicit false

namespace NumericPython.Toml

def isGrouped (isDigit : Char → Bool) (digitBefore : Bool) : List Char → Bool
  | [] => digitBefore
  | c :: cs =>
    if c = '_' then digitBefore && isGrouped isDigit false cs
    else isDigit c && isGrouped isDigit true cs

def isDecimal (cs : List Char) : Bool :=
  isGrouped Char.isDigit false cs && (cs.head? != some '0' || cs.length == 1)

def withoutSign : List Char → List Char
  | '+' :: cs | '-' :: cs => cs
  | cs => cs

def inBase? (base : Nat) (cs : List Char) : Option Int :=
  let digits := cs.map Char.toLower
  if isGrouped (fun c => (Literal.digitIn? base c).isSome) false digits then
    (Literal.natural? base (Literal.withoutSeparators digits)).map fun n => (n : Int)
  else none

def integer? (cs : List Char) : Option Int :=
  let value? :=
    match cs with
    | '0' :: 'x' :: digits => inBase? 16 digits
    | '0' :: 'o' :: digits => inBase? 8 digits
    | '0' :: 'b' :: digits => inBase? 2 digits
    | cs =>
      if isDecimal (withoutSign cs) then Literal.signed? 10 (Literal.withoutSeparators cs) else none
  value?.bind fun value => (Literal.int64? value).map fun _ => value

def isExponent : List Char → Bool
  | c :: cs => (c = 'e' || c = 'E') && isGrouped Char.isDigit false (withoutSign cs)
  | [] => false

def isFractional (cs : List Char) : Bool :=
  let inNumber (c : Char) : Bool := c.isDigit || c = '_'
  isDecimal (cs.takeWhile inNumber) &&
    match cs.dropWhile inNumber with
    | '.' :: more =>
      let tail := more.dropWhile inNumber
      isGrouped Char.isDigit false (more.takeWhile inNumber) && (tail.isEmpty || isExponent tail)
    | tail => isExponent tail

/-- Whether the nearest number to a decimal text is infinity. Negative numbers have no such bound. -/
def isTooLarge (cs : List Char) : Bool :=
  Binary64.ofChars? (Literal.withoutSeparators cs) = some .infinity

def isFloat (cs : List Char) : Bool :=
  let body := withoutSign cs
  if body = ['i', 'n', 'f'] || body = ['n', 'a', 'n'] then true
  else isFractional body && !isTooLarge cs

def fixedDigits? (count : Nat) (cs : List Char) : Option (Nat × List Char) :=
  let digits := cs.take count
  if digits.length = count && digits.all Char.isDigit then
    (Literal.natural? 10 digits).map fun n => (n, cs.drop count)
  else none

def isLeapYear (year : Nat) : Bool :=
  year % 4 = 0 && (year % 100 != 0 || year % 400 = 0)

def daysIn (year month : Nat) : Nat :=
  if month = 2 then if isLeapYear year then 29 else 28
  else if month = 4 || month = 6 || month = 9 || month = 11 then 30
  else 31

def afterChar? (c : Char) : List Char → Option (List Char)
  | d :: cs => if d = c then some cs else none
  | [] => none

def afterDate? (cs : List Char) : Option (List Char) := do
  let (year, cs) ← fixedDigits? 4 cs
  let (month, cs) ← fixedDigits? 2 (← afterChar? '-' cs)
  let (day, cs) ← fixedDigits? 2 (← afterChar? '-' cs)
  if 1 ≤ month && month ≤ 12 && 1 ≤ day && day ≤ daysIn year month then some cs else none

def afterTime? (cs : List Char) : Option (List Char) := do
  let (hour, cs) ← fixedDigits? 2 cs
  let (minute, cs) ← fixedDigits? 2 (← afterChar? ':' cs)
  let (second, cs) ← fixedDigits? 2 (← afterChar? ':' cs)
  if hour ≤ 23 && minute ≤ 59 && second ≤ 60 then
    match cs with
    | '.' :: more =>
      if more.takeWhile Char.isDigit = [] then none else some (more.dropWhile Char.isDigit)
    | cs => some cs
  else none

def isOffset (cs : List Char) : Bool :=
  match cs with
  | ['Z'] | ['z'] => true
  | c :: digits =>
    (c = '+' || c = '-') &&
      (do
        let (hour, rest) ← fixedDigits? 2 digits
        let (minute, rest) ← fixedDigits? 2 (← afterChar? ':' rest)
        some (hour ≤ 23 && minute ≤ 59 && rest.isEmpty)).getD false
  | [] => false

def isDatetime (cs : List Char) : Bool :=
  match afterDate? cs with
  | some [] => true
  | some (c :: time) =>
    (c = 'T' || c = 't' || c = ' ') &&
      (match afterTime? time with
        | some rest => rest.isEmpty || isOffset rest
        | none => false)
  | none => afterTime? cs == some []

end NumericPython.Toml
