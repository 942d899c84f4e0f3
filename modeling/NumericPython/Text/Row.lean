import NumericPython.Text.Blank
import NumericPython.Text.Bytes

set_option autoImplicit false

namespace NumericPython

structure Row where
  start : Nat
  text : List Char
deriving DecidableEq

namespace Row

def extend (start : Nat) (c : Char) : List Row → List Row
  | [] => [⟨start, [c]⟩]
  | row :: rows => ⟨start, c :: row.text⟩ :: rows

def split (start : Nat) : List Char → List Row
  | [] => [⟨start, []⟩]
  | c :: cs =>
    if c = '\n' then ⟨start, []⟩ :: split (start + 1) cs
    else extend start c (split (start + c.utf8Size) cs)

def isBlank (row : Row) : Bool :=
  Text.isBlankLine row.text

end Row

structure Source where
  chars : List Char
  rows : List Row
  rows_eq : rows = Row.split 0 chars

namespace Source

def ofString (text : String) : Source :=
  ⟨text.toList, Row.split 0 text.toList, rfl⟩

def text (source : Source) : String :=
  String.ofList source.chars

def slice (source : Source) (start stop : Nat) : String :=
  String.ofList (Text.slice source.chars start stop)

def rowAt (source : Source) (offset : Nat) : Nat :=
  (Text.takeBytes offset source.chars).count '\n'

def startsRow (source : Source) (offset : Nat) : Bool :=
  (Text.takeBytes offset source.chars).getLast?.all (· == '\n')

/-- The number of rows that hold text: the empty row after a final line feed is not counted. -/
def textRows (source : Source) : Nat :=
  if source.chars.getLast? = some '\n' then source.rows.length - 1 else source.rows.length

/-- Start offsets of the blank rows numbered from `first` up to but not including `last`. -/
def blankStarts (source : Source) (first last : Nat) : List Nat :=
  (((source.rows.take last).drop first).filter Row.isBlank).map Row.start

end Source

end NumericPython
