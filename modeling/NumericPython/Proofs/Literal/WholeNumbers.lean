import Mathlib.Data.Nat.Digits.Defs
import NumericPython.Proofs.Literal.Numbers

set_option autoImplicit false

namespace NumericPython

inductive Radix where
  | decimal
  | hexadecimal
  | octal
  | binary
deriving DecidableEq

namespace Radix

def base : Radix → Nat
  | decimal => 10
  | hexadecimal => 16
  | octal => 8
  | binary => 2

def openings : Radix → List (List Char)
  | decimal => [[]]
  | hexadecimal => [['0', 'x'], ['0', 'X']]
  | octal => [['0', 'o'], ['0', 'O']]
  | binary => [['0', 'b'], ['0', 'B']]

theorem base_pos (radix : Radix) : 0 < radix.base := by
  cases radix <;> decide

end Radix

def digitChars : List Char :=
  ['0', '1', '2', '3', '4', '5', '6', '7', '8', '9', 'a', 'b', 'c', 'd', 'e', 'f']

def digitValue? (c : Char) : Option Nat :=
  digitChars.idxOf? c.toLower

/-- The literal of a whole number. -/
structure WholeNumber where
  radix : Radix
  opening : List Char
  opening_mem : opening ∈ radix.openings
  body : List Char
  isDigit : ∀ c ∈ body, c = '_' ∨ ∃ value < radix.base, digitValue? c = some value
  someDigit : ∃ c ∈ body, c ≠ '_'
  longMark : List Char
  longMark_mem : longMark ∈ [[], ['l'], ['L']]

namespace WholeNumber

variable (number : WholeNumber)

def chars : List Char :=
  number.opening ++ number.body ++ number.longMark

def text : String :=
  String.ofList number.chars

def digits : List Nat :=
  number.body.filterMap digitValue?

def value : Nat :=
  Nat.ofDigits number.radix.base number.digits.reverse

def signed (negate : Bool) : Int :=
  if negate then -(number.value : Int) else number.value

end WholeNumber

namespace Literal

/-- Reads digits with an accumulator that holds numbers up to `limit` only. -/
def digitsWithin? (limit base : Nat) (value : Nat) : List Char → Option Nat
  | [] => some value
  | c :: cs =>
    (digitIn? base c).bind fun digit =>
      if base * value ≤ limit ∧ base * value + digit ≤ limit then
        digitsWithin? limit base (base * value + digit) cs
      else none

variable {base : Nat}

theorem digitIn?_of_mem (radix : Radix) :
    ∀ c ∈ digitChars, digitIn? radix.base c = (digitChars.idxOf? c).filter (· < radix.base) := by
  rw [← List.forall_iff_forall_mem]
  cases radix <;> decide

theorem digitIn?_toLower {radix : Radix} {c : Char} {value : Nat} (small : value < radix.base)
    (found : digitValue? c = some value) : digitIn? radix.base c.toLower = some value := by
  have member : c.toLower ∈ digitChars := by
    by_contra other
    rw [digitValue?, List.idxOf?_eq_none_iff.2 other] at found
    cases found
  rw [digitIn?_of_mem radix _ member, show digitChars.idxOf? c.toLower = some value from found]
  simp [small]

section Accumulators

variable {cs : List Char} {digits : List Nat}

theorem digitsFrom?_eq
    (read : List.Forall₂ (fun c digit => digitIn? base c = some digit) cs digits) (value : Nat) :
    digitsFrom? base value cs =
      some (digits.foldl (fun value digit => base * value + digit) value) := by
  induction read generalizing value with
  | nil => rfl
  | cons digit _ ih =>
      rw [digitsFrom?, digit, Option.bind_some, ih]
      rfl

theorem le_of_digitsFrom? (positive : 0 < base) {value result : Nat}
    (read : digitsFrom? base value cs = some result) : value ≤ result := by
  induction cs generalizing value with
  | nil => exact (Option.some.inj read).le
  | cons c cs ih =>
      rw [digitsFrom?, Option.bind_eq_some_iff] at read
      obtain ⟨digit, -, rest⟩ := read
      have next := ih rest
      have grows : value ≤ base * value := Nat.le_mul_of_pos_left value positive
      omega

theorem digitsWithin?_eq (positive : 0 < base) (limit : Nat) {value : Nat} (small : value ≤ limit) :
    digitsWithin? limit base value cs = (digitsFrom? base value cs).filter (· ≤ limit) := by
  induction cs generalizing value with
  | nil => rw [digitsWithin?, digitsFrom?, Option.filter_some, if_pos (decide_eq_true small)]
  | cons c cs ih =>
      rw [digitsWithin?, digitsFrom?]
      cases digitIn? base c with
      | none => rfl
      | some digit =>
          simp only [Option.bind_some]
          split
          next held => exact ih held.2
          next lost =>
            -- The number only grows from here on.
            symm
            rw [Option.filter_eq_none_iff]
            intro result read
            have grows := le_of_digitsFrom? positive read
            simp only [decide_eq_true_eq]
            omega

theorem signed?_eq (read : List.Forall₂ (fun c digit => digitIn? base c = some digit) cs digits)
    (some_digit : cs ≠ []) (minus : digitIn? base '-' = none) (plus : digitIn? base '+' = none) :
    signed? base cs =
      some ((digits.foldl (fun value digit => base * value + digit) 0 : Nat) : Int) := by
  have magnitude : natural? base cs =
      some (digits.foldl (fun value digit => base * value + digit) 0) := by
    rw [natural?, digitsFrom?_eq read]
    exact some_digit
  unfold signed?
  split
  next =>
    cases read with
    | cons digit _ =>
        rw [minus] at digit
        cases digit
  next =>
    cases read with
    | cons digit _ =>
        rw [plus] at digit
        cases digit
  next =>
    rw [magnitude]
    rfl

end Accumulators

theorem int64?_eq_some_iff {value : Int} {n : Int64} : int64? value = some n ↔ n.toInt = value := by
  have least : Int64.minValue.toInt = -2 ^ 63 := rfl
  have greatest : Int64.maxValue.toInt = 2 ^ 63 - 1 := rfl
  constructor
  · intro found
    simp only [int64?, Bool.and_eq_true, decide_eq_true_eq, Option.ite_none_right_eq_some,
      Option.some.injEq] at found
    obtain ⟨⟨lower, upper⟩, rfl⟩ := found
    exact Int64.toInt_ofInt_of_le (by omega) (by omega)
  · rintro rfl
    have range := And.intro n.minValue_le_toInt n.toInt_le
    rw [int64?, if_pos (by simpa using range), Int64.ofInt_toInt]

theorem int64?_eq_none_iff {value : Int} :
    int64? value = none ↔ value < -2 ^ 63 ∨ 2 ^ 63 ≤ value := by
  have least : Int64.minValue.toInt = -2 ^ 63 := rfl
  have greatest : Int64.maxValue.toInt = 2 ^ 63 - 1 := rfl
  simp only [int64?, Bool.and_eq_true, decide_eq_true_eq, ite_eq_right_iff, reduceCtorEq, imp_false]
  omega

end Literal

namespace WholeNumber

open Literal

variable (number : WholeNumber)

def plain : List Char :=
  (withoutSeparators number.body).map Char.toLower

theorem value_eq_foldl :
    number.value =
      number.digits.foldl (fun value digit => number.radix.base * value + digit) 0 := by
  rw [value, Nat.ofDigits_eq_foldr, List.foldr_reverse]
  congr 1
  funext value digit
  exact Nat.add_comm _ _

theorem plain_digits :
    List.Forall₂ (fun c digit => digitIn? number.radix.base c = some digit) number.plain
      number.digits := by
  have isDigit := number.isDigit
  simp only [plain, digits, withoutSeparators]
  generalize number.body = body at isDigit
  induction body with
  | nil => exact .nil
  | cons c body ih =>
      have rest := ih fun d member => isDigit d (.tail _ member)
      rcases isDigit c (.head _) with rfl | ⟨value, small, found⟩
      · exact rest
      · have digit : c ≠ '_' := by
          rintro rfl
          cases found
        rw [List.filter_cons_of_pos (by simpa using digit), List.map_cons,
          List.filterMap_cons_some found]
        exact .cons (digitIn?_toLower small found) rest

theorem plain_ne_nil : number.plain ≠ [] := by
  obtain ⟨c, member, other⟩ := number.someDigit
  have kept : c ∈ withoutSeparators number.body :=
    List.mem_filter.2 ⟨member, by simpa using other⟩
  exact List.ne_nil_of_mem (List.mem_map_of_mem kept)

theorem withoutSeparators_chars :
    withoutSeparators number.chars =
      number.opening ++ withoutSeparators number.body ++ number.longMark := by
  have opening : withoutSeparators number.opening = number.opening := by
    have member := number.opening_mem
    generalize number.opening = opening at member
    revert opening
    cases number.radix <;> decide
  have longMark : withoutSeparators number.longMark = number.longMark := by
    have member := number.longMark_mem
    generalize number.longMark = mark at member
    revert mark
    decide
  rw [chars, withoutSeparators, List.filter_append, List.filter_append]
  exact congrArg₂ (· ++ ·) (congrArg₂ (· ++ ·) opening rfl) longMark

theorem getLast?_body :
    ∃ c, (withoutSeparators number.body).getLast? = some c ∧ isLong c = false ∧
      c ≠ 'j' ∧ c ≠ 'J' := by
  have some_digit : withoutSeparators number.body ≠ [] := fun none =>
    number.plain_ne_nil (by rw [plain, none]; rfl)
  have last := List.getLast_mem some_digit
  obtain ⟨member, other⟩ := List.mem_filter.1 last
  refine ⟨_, List.getLast?_eq_some_getLast some_digit, ?_⟩
  rcases number.isDigit _ member with separator | ⟨value, -, found⟩
  · simp [separator] at other
  · generalize (withoutSeparators number.body).getLast some_digit = c at found
    refine ⟨?_, ?_, ?_⟩
    · simp only [isLong, Bool.or_eq_false_iff, beq_eq_false_iff_ne]
      constructor <;> rintro rfl <;> cases found
    · rintro rfl
      cases found
    · rintro rfl
      cases found

theorem imaginaryPart?_chars : imaginaryPart? (withoutSeparators number.chars) = none := by
  obtain ⟨c, last, -, lower, upper⟩ := number.getLast?_body
  have mark := number.longMark_mem
  simp only [List.mem_cons, List.not_mem_nil, or_false] at mark
  rw [withoutSeparators_chars]
  rcases mark with mark | mark | mark
  · simp [imaginaryPart?, mark, last, lower, upper]
  · simp [imaginaryPart?, mark]
  · simp [imaginaryPart?, mark]

theorem withoutLongMark_chars :
    withoutLongMark (withoutSeparators number.chars) =
      number.opening ++ withoutSeparators number.body := by
  obtain ⟨c, last, short, -, -⟩ := number.getLast?_body
  have mark : ∀ d ∈ number.longMark.reverse, isLong d = true := by
    have member := number.longMark_mem
    simp only [List.mem_cons, List.not_mem_nil, or_false] at member
    rcases member with member | member | member <;> simp [member, isLong]
  have stops : ∀ d ∈ (number.opening ++ withoutSeparators number.body).reverse.head?,
      isLong d = false := by
    simp [last, short]
  rw [withoutSeparators_chars, withoutLongMark, List.reverse_append,
    dropWhile_append_stop mark stops, List.reverse_reverse]

theorem integerValue?_decimal (decimal : number.radix = .decimal) :
    integerValue? number.plain = signed? 10 number.plain := by
  have digit : ∀ c ∈ number.plain, digitIn? 10 c ≠ none := by
    have read := number.plain_digits
    rw [decimal] at read
    exact ((List.forall₂_and_left _ _).1
      (read.imp fun c digit found => ⟨Option.ne_none_iff_exists'.2 ⟨digit, found⟩, found⟩)).1
  -- The letter that announces another base is no decimal digit.
  unfold integerValue?
  split
  next shape => exact absurd rfl (digit 'x' (by simp [shape]))
  next shape => exact absurd rfl (digit 'o' (by simp [shape]))
  next shape => exact absurd rfl (digit 'b' (by simp [shape]))
  next => rfl

theorem integerValue?_chars :
    integerValue? ((withoutLongMark (withoutSeparators number.chars)).map Char.toLower) =
      some (number.value : Int) := by
  have announced :
      integerValue? ((number.opening ++ withoutSeparators number.body).map Char.toLower) =
        signed? number.radix.base number.plain := by
    have opening := number.opening_mem
    rw [List.map_append]
    cases radix : number.radix with
    | decimal =>
        rw [radix] at opening
        rw [List.mem_singleton.1 opening]
        exact number.integerValue?_decimal radix
    | hexadecimal | octal | binary =>
        rw [radix] at opening
        simp only [Radix.openings, List.mem_cons, List.not_mem_nil, or_false] at opening
        rcases opening with opening | opening <;>
          · rw [opening]
            rfl
  have minus : digitIn? number.radix.base '-' = none := by
    cases number.radix <;> rfl
  have plus : digitIn? number.radix.base '+' = none := by
    cases number.radix <;> rfl
  rw [withoutLongMark_chars, announced,
    signed?_eq number.plain_digits number.plain_ne_nil minus plus, value_eq_foldl]

theorem integer?_text (negate : Bool) :
    integer? negate number.text = (int64? (number.signed negate)).map .integer := by
  have text : number.text.toList = number.chars := String.toList_ofList
  simp only [integer?, text, imaginaryPart?_chars, whole?, integerValue?_chars, Option.bind_eq_bind,
    Option.bind_some, signed]
  cases int64? (if negate = true then -(number.value : Int) else number.value) <;> rfl

theorem digitsWithin?_plain {limit : Nat} (wide : 2 ^ 63 ≤ limit) (negate : Bool) :
    (digitsWithin? limit number.radix.base 0 number.plain).bind
        (fun value => int64? (if negate then -(value : Int) else value)) =
      int64? (number.signed negate) := by
  rw [digitsWithin?_eq number.radix.base_pos limit (Nat.zero_le _),
    digitsFrom?_eq number.plain_digits, ← value_eq_foldl]
  rcases Nat.lt_or_ge limit number.value with lost | held
  · have refused : int64? (number.signed negate) = none := by
      rw [int64?_eq_none_iff, signed]
      cases negate
      · exact .inr (by simp only [Bool.false_eq_true, if_false]; omega)
      · exact .inl (by simp only [if_true]; omega)
    rw [refused, Option.filter_some, if_neg (by simpa using lost)]
    rfl
  · rw [Option.filter_some, if_pos (by simpa using held)]
    rfl

end WholeNumber

end NumericPython
