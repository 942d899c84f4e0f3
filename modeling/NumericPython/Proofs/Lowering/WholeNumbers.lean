import NumericPython.Printing.Expr
import NumericPython.Proofs.Literal.WholeNumbers
import NumericPython.Proofs.Lowering.Understood

set_option autoImplicit false

namespace NumericPython

namespace WholeNumber

theorem exists_digitValue {c : Char} (digit : c.isDigit = true) :
    ∃ value < Radix.decimal.base, digitValue? c = some value := by
  have known : ∀ value < 10, digitValue? (Char.ofNat (48 + value)) = some value := by decide
  simp only [Char.isDigit, Bool.and_eq_true, decide_eq_true_eq] at digit
  have lower : 48 ≤ c.toNat := digit.1
  have upper : c.toNat ≤ 57 := digit.2
  have small : c.toNat - 48 < 10 := by omega
  have found := known _ small
  rw [Nat.add_sub_cancel' lower, Char.ofNat_toNat] at found
  exact ⟨_, small, found⟩

def ofNat (n : Nat) : WholeNumber where
  radix := .decimal
  opening := []
  opening_mem := .head _
  body := Nat.toDigits 10 n
  isDigit c member := .inr (exists_digitValue
    ((Numeral.isDigits_iff.1 (Decimal.isDigits_toDigits n)).2 c member))
  someDigit := by
    obtain ⟨some_digit, digit⟩ := Numeral.isDigits_iff.1 (Decimal.isDigits_toDigits n)
    obtain ⟨c, member⟩ := List.exists_mem_of_ne_nil _ some_digit
    refine ⟨c, member, ?_⟩
    rintro rfl
    cases digit _ member
  longMark := []
  longMark_mem := .head _

theorem text_ofNat (n : Nat) : (ofNat n).text = String.ofList (Nat.toDigits 10 n) := by
  simp [text, chars, ofNat]

end WholeNumber

/-- The tree of a whole number, or of one under a minus sign. The literal stands at `span`. -/
inductive Tree.ShowsWhole (text : String) : Bool → Span → Tree → Prop where
  | plain {tree : Tree} (kind : tree.kind = .integer) (same : tree.text = text) :
      ShowsWhole text false tree.span tree
  | negated {tree operator argument : Tree} (kind : tree.kind = .unaryOperator)
      (sign : tree.child? "operator" = some operator) (minus : operator.text = "-")
      (inner : tree.child? "argument" = some argument) (whole : argument.kind = .integer)
      (same : argument.text = text) : ShowsWhole text true argument.span tree

namespace Lowering

variable {text : String} {negate : Bool} {span : Span} {tree : Tree}

theorem lowerExpr_showsWhole (shows : tree.ShowsWhole text negate span) :
    lowerExpr tree = lowerInteger negate text span := by
  cases shows with
  | plain kind same =>
      obtain ⟨kind, span, written, field, children⟩ := tree
      subst kind same
      rw [lowerExpr]
  | @negated tree operator argument kind sign minus inner whole same =>
      obtain ⟨kind, span, written, field, children⟩ := tree
      subst kind same
      have operatorAt : childAt .unaryOperator span "operator" children = .ok operator :=
        congrArg (required .unaryOperator span "operator" <| Option.map .ok ·) sign
      have argumentAt : childAt .unaryOperator span "argument" children = .ok argument :=
        congrArg (required .unaryOperator span "argument" <| Option.map .ok ·) inner
      have value : negatedArgument children =
          some (lowerInteger true argument.text argument.span) := by
        rw [negatedArgument_eq, show children.find? (·.fills "argument") = some argument from inner,
          Option.map_some, lowerNegated, whole]
      rw [lowerExpr, operatorAt, argumentAt, value]
      exact if_pos minus

theorem lowerExpr_wholeNumber (number : WholeNumber)
    (shows : tree.ShowsWhole number.text negate span) :
    lowerExpr tree =
      match Literal.int64? (number.signed negate) with
      | some n => .ok (.integer n)
      | none => .error (.invalidLiteral number.text span) := by
  rw [lowerExpr_showsWhole shows, lowerInteger, number.integer?_text]
  cases Literal.int64? (number.signed negate) <;> rfl

theorem exists_printed_wholeNumber (n : Int64) :
    ∃ number : WholeNumber,
      Printing.exprText (.integer n) = .ok ((if n.toInt < 0 then "-" else "") ++ number.text) ∧
        ∀ {tree : Tree} {span : Span}, tree.ShowsWhole number.text (n.toInt < 0) span →
          lowerExpr tree = .ok (.integer n) := by
  refine ⟨.ofNat n.toInt.natAbs, ?_, fun shows => ?_⟩
  · have digits : toString n.toInt = n.toInt.repr := rfl
    rw [Printing.exprText, digits, WholeNumber.text_ofNat]
    refine congrArg _ (String.toList_inj.1 ?_)
    rw [Decimal.toList_repr_int, String.toList_append, String.toList_ofList]
    split <;> rfl
  · rw [lowerExpr_showsWhole shows, lowerInteger, WholeNumber.text_ofNat, Literal.integer?_digits]

/-- A whole number of any length, alone or under a minus sign, is lowered to its value if that has 64
bits, and is refused where it stands otherwise; accumulators that hold 64-bit magnitudes or more
compute the same. The texts of 64-bit numbers are lowered to these numbers. -/
theorem whole_number_exact_or_refused :
    (∀ (number : WholeNumber) {negate : Bool} {span : Span} {tree : Tree},
      tree.ShowsWhole number.text negate span →
        (-2 ^ 63 ≤ number.signed negate → number.signed negate ≤ 2 ^ 63 - 1 →
          ∃ n : Int64, n.toInt = number.signed negate ∧ lowerExpr tree = .ok (.integer n)) ∧
        (number.signed negate < -2 ^ 63 ∨ 2 ^ 63 ≤ number.signed negate →
          lowerExpr tree = .error (.invalidLiteral number.text span)) ∧
        ∀ limit ≥ 2 ^ 63, lowerExpr tree =
          match (Literal.digitsWithin? limit number.radix.base 0 number.plain).bind
            fun value => Literal.int64? (if negate then -(value : Int) else value) with
          | some n => .ok (.integer n)
          | none => .error (.invalidLiteral number.text span)) ∧
    ∀ n : Int64, ∃ number : WholeNumber,
      Printing.exprText (.integer n) = .ok ((if n.toInt < 0 then "-" else "") ++ number.text) ∧
        ∀ {tree : Tree} {span : Span}, tree.ShowsWhole number.text (n.toInt < 0) span →
          lowerExpr tree = .ok (.integer n) := by
  refine ⟨fun number negate span tree shows => ⟨fun lower upper => ?_, fun outside => ?_,
    fun limit wide => ?_⟩, exists_printed_wholeNumber⟩
  · have same := Int64.toInt_ofInt_of_le lower (by omega)
    exact ⟨_, same, by rw [lowerExpr_wholeNumber number shows, Literal.int64?_eq_some_iff.2 same]⟩
  · rw [lowerExpr_wholeNumber number shows, Literal.int64?_eq_none_iff.2 outside]
  · rw [lowerExpr_wholeNumber number shows, number.digitsWithin?_plain wide]

def leastMagnitude : WholeNumber where
  radix := .hexadecimal
  opening := ['0', 'x']
  opening_mem := .head _
  body := "8000_0000_0000_0000".toList
  isDigit := List.forall_iff_forall_mem.1 (by decide)
  someDigit := ⟨'8', by decide, by decide⟩
  longMark := ['L']
  longMark_mem := by decide

def leastNumber : Tree :=
  ⟨.unaryOperator, .ofRange 0 23, "-0x8000_0000_0000_0000L", none,
    [.leaf .token (.ofRange 0 1) "-" (some "operator"),
     .leaf .integer (.ofRange 1 23) "0x8000_0000_0000_0000L" (some "argument")]⟩

theorem least_number_exact_but_not_its_magnitude :
    (∃ n : Int64, n.toInt = -2 ^ 63 ∧ lowerExpr leastNumber = .ok (.integer n)) ∧
      lowerExpr (.leaf .integer (.ofRange 0 22) leastMagnitude.text none) =
        .error (.invalidLiteral leastMagnitude.text (.ofRange 0 22)) := by
  have negative : leastMagnitude.signed true = -2 ^ 63 := by decide +kernel
  have positive : leastMagnitude.signed false = 2 ^ 63 := by decide +kernel
  have text : "0x8000_0000_0000_0000L" = leastMagnitude.text := by decide +kernel
  have negated : leastNumber.ShowsWhole leastMagnitude.text true (.ofRange 1 23) :=
    @Tree.ShowsWhole.negated _ leastNumber (.leaf .token (.ofRange 0 1) "-" (some "operator"))
      (.leaf .integer (.ofRange 1 23) "0x8000_0000_0000_0000L" (some "argument"))
      rfl rfl rfl rfl rfl text
  have plain : Tree.ShowsWhole leastMagnitude.text false (.ofRange 0 22)
      (.leaf .integer (.ofRange 0 22) leastMagnitude.text none) :=
    @Tree.ShowsWhole.plain _ (.leaf .integer (.ofRange 0 22) leastMagnitude.text none) rfl rfl
  obtain ⟨n, same, lowered⟩ := (whole_number_exact_or_refused.1 leastMagnitude negated).1
    negative.ge (by rw [negative]; decide)
  exact ⟨⟨n, same.trans negative, lowered⟩,
    (whole_number_exact_or_refused.1 leastMagnitude plain).2.1 (.inr positive.ge)⟩

end Lowering

end NumericPython
