import NumericPython.Problem.Basic
import NumericPython.Tree.Raw
import NumericPython.FrontEnd

set_option autoImplicit false

namespace NumericPython

namespace Problem

/-- The first place in the text of `tree` where `bracket` stands. -/
def bracketIn? (source : Source) (tree : RawTree) (bracket : Char) : Option Nat :=
  let text := Text.slice source.chars tree.start tree.stop
  if bracket ∈ text then
    some (tree.start + Text.byteSize (text.takeWhile (· != bracket)))
  else none

def closingOf (opening : Char) : Char :=
  if opening = '[' then ']' else if opening = '\x7b' then '\x7d' else ')'

def openingOf? (closing : String) : Option Char :=
  if closing = ")" then some '('
  else if closing = "]" then some '['
  else if closing = "\x7d" then some '\x7b'
  else none

def unclosed (opening : Char) (openedAt offset length : Nat) : Problem :=
  ⟨.unclosed opening (closingOf opening) openedAt, offset, length⟩

def firstLine (cs : List Char) : List Char :=
  let line := cs.takeWhile (· != '\n')
  if line.length < cs.length && line.getLast? == some '\r' then line.dropLast else line

def foundAt (source : Source) (offset : Nat) : String :=
  let word? :=
    if Text.isBoundary offset source.chars then
      Text.firstWord? (Text.dropBytes offset source.chars)
    else none
  match word? with
  | some word => String.ofList word
  | none => "end of file"

def ofMissing (source : Source) (parent : Option RawTree) (tree : RawTree) : Problem :=
  let missing : Problem := ⟨.missing tree.kind (foundAt source tree.start), tree.start, 1⟩
  match openingOf? tree.kind, parent with
  | some opening, some around =>
    match bracketIn? source around opening with
    | some openedAt => unclosed opening openedAt tree.start 1
    | none => missing
  | _, _ => missing

def bracketOf? (name : String) : Option Char :=
  if name ∈ ["parameters", "argument_list", "parenthesized_expression", "tuple"] then some '('
  else if name ∈ ["subscript", "list"] then some '['
  else none

def constructOf? (name : String) : Option (String × String) :=
  if name = "block" then
    some ("indented block",
      "a block holds statements indented deeper than the line that opens it")
  else if name = "function_definition" then
    some ("function definition",
      "function definitions have the form: `def name(params):` followed by an indented body")
  else if name = "class_definition" then
    some ("class definition",
      "class definitions have the form: `class Name:` followed by an indented body")
  else if name ∈ ["if_statement", "elif_clause", "while_statement", "for_statement"] then
    some ("compound statement", "the header line of a compound statement ends with `:`")
  else none

def ofError (source : Source) (parent : Option RawTree) (tree : RawTree) : Problem :=
  let length := tree.stop - tree.start
  let token := firstLine (Text.slice source.chars tree.start tree.stop)
  let unexpected : Problem := ⟨.unexpected (String.ofList token), tree.start, length⟩
  match parent with
  | none => unexpected
  | some around =>
    match bracketOf? around.kind with
    | some opening =>
      match bracketIn? source around opening with
      | some openedAt => unclosed opening openedAt tree.start length
      | none => unexpected
    | none =>
      match constructOf? around.kind with
      | some (construct, hint) => ⟨.malformed construct hint, tree.start, length⟩
      | none => unexpected

def ofNode? (source : Source) (parent : Option RawTree) (tree : RawTree) : Option Problem :=
  if tree.isError then some (ofError source parent tree)
  else if tree.isMissing then some (ofMissing source parent tree)
  else none

@[simp] theorem isSome_ofNode? (source : Source) (parent : Option RawTree) (tree : RawTree) :
    (ofNode? source parent tree).isSome = tree.isFlagged := by
  cases hError : tree.isError <;> cases hMissing : tree.isMissing <;>
    simp [ofNode?, RawTree.isFlagged, hError, hMissing]

mutual

def findIn (source : Source) (parent : Option RawTree) : RawTree → List Problem
  | ⟨kind, field, start, stop, isNamed, isError, isMissing, children⟩ =>
    let tree : RawTree := ⟨kind, field, start, stop, isNamed, isError, isMissing, children⟩
    (ofNode? source parent tree).toList ++ findInAll source tree children

def findInAll (source : Source) (parent : RawTree) : List RawTree → List Problem
  | [] => []
  | tree :: rest => findIn source (some parent) tree ++ findInAll source parent rest

end

def ofTree (source : Source) (tree : RawTree) : List Problem :=
  findIn source none tree

def refusal? : List Problem → Option FrontEndError
  | [] => none
  | first :: rest => some (.problems first.message (rest.length + 1))

end Problem

end NumericPython
