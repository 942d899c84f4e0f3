import NumericPython.FrontEnd
import NumericPython.Text.Blank
import NumericPython.Text.Bytes

set_option autoImplicit false

namespace NumericPython.Directive

inductive Fault where
  | missingMarker
  | unbalanced
  | empty
  | familyNotIdentifier
deriving DecidableEq

def Fault.reason : Fault → String
  | missingMarker => "missing `#$` marker"
  | unbalanced => "unbalanced parentheses"
  | empty => "empty directive"
  | familyNotIdentifier => "directive family must be an identifier"

structure Word where
  start : Nat
  text : List Char
deriving DecidableEq

def depthAfter (depth : Nat) (c : Char) : Option Nat :=
  -- A parenthesis that was never opened cannot be closed.
  if c = '(' then some (depth + 1)
  else if c = ')' then if depth = 0 then none else some (depth - 1)
  else some depth

def finishWord (stop : Nat) (word : List Char) : List Word :=
  if word.isEmpty then [] else [⟨stop - Text.byteSize word, word⟩]

/-- Splits a text that starts at byte `offset` into words. `word` holds the characters of the word
that is open there. Fails if a parenthesis has no partner. -/
def splitWords (offset depth : Nat) (word : List Char) : List Char → Option (List Word)
  | [] => if depth = 0 then some (finishWord offset word) else none
  | c :: cs =>
    match depthAfter depth c with
    | none => none
    | some inner =>
      -- A closing parenthesis is no blank, so the depth before and after `c` agree here.
      if Text.isBlank c && inner == 0 then
        (splitWords (offset + c.utf8Size) inner [] cs).map (finishWord offset word ++ ·)
      else
        splitWords (offset + c.utf8Size) inner (word ++ [c]) cs

def isIdentifierStart (c : Char) : Bool :=
  c.isAlpha || c == '_'

def isIdentifier : List Char → Bool
  | [] => false
  | c :: cs => isIdentifierStart c && (c :: cs).all fun d => d.isAlphanum || d == '_'

def IsLetter (c : Char) : Prop :=
  'A' ≤ c ∧ c ≤ 'Z' ∨ 'a' ≤ c ∧ c ≤ 'z'

theorem isIdentifier_iff {word : List Char} :
    isIdentifier word = true ↔
      ∃ c cs, word = c :: cs ∧ (IsLetter c ∨ c = '_') ∧
        ∀ d ∈ cs, IsLetter d ∨ '0' ≤ d ∧ d ≤ '9' ∨ d = '_' := by
  have letter (c : Char) : c.isAlpha = true ↔ IsLetter c := by
    have split : c.isAlpha = (decide (c.val ≥ 'A'.val ∧ c.val ≤ 'Z'.val) ||
        (decide (c.val ≥ 'a'.val) && decide (c.val ≤ 'z'.val))) := rfl
    simp [split, IsLetter, Char.le_def, UInt32.le_iff_toNat_le]
  have digit (c : Char) : c.isDigit = true ↔ '0' ≤ c ∧ c ≤ '9' := by
    simp [Char.isDigit, Char.le_def, UInt32.le_iff_toNat_le]
  cases word with
  | nil => simp [isIdentifier]
  | cons c cs =>
      simp only [isIdentifier, isIdentifierStart, List.all_cons, Char.isAlphanum, Bool.and_eq_true,
        Bool.or_eq_true, List.all_eq_true, letter, digit, beq_iff_eq, or_assoc, List.cons.injEq]
      constructor
      · rintro ⟨start, -, others⟩
        exact ⟨c, cs, ⟨rfl, rfl⟩, start, others⟩
      · rintro ⟨_, _, ⟨rfl, rfl⟩, start, others⟩
        refine ⟨start, start.imp_right .inr, others⟩

def wordTree (kind : Kind) (field : String) (word : Word) : Tree :=
  .leaf kind (.ofRange word.start (word.start + Text.byteSize word.text)) (String.ofList word.text)
    (some field)

def words? (text : List Char) : Except Fault (Word × List Word) :=
  match text with
  | '#' :: '$' :: body =>
    match splitWords 2 0 [] body with
    | none => .error .unbalanced
    | some [] => .error .empty
    | some (family :: clauses) =>
      if isIdentifier family.text then .ok (family, clauses) else .error .familyNotIdentifier
  | _ => .error .missingMarker

def parse (text : String) : Except FrontEndError Tree :=
  match words? text.toList with
  | .error fault => .error (.directive text fault.reason)
  | .ok (family, clauses) =>
    .ok
      { kind := .directive
        span := .ofRange 0 (Text.byteSize text.toList)
        text
        field := none
        children := wordTree .identifier "family" family ::
          clauses.map (wordTree .directiveClause "clause") }

def frontEnd : FrontEnd := ⟨parse⟩

end NumericPython.Directive
