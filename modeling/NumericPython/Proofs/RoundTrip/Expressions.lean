import NumericPython.Proofs.Grammar.Parser
import NumericPython.Proofs.Grammar.Places
import NumericPython.Proofs.Grammar.Series
import NumericPython.Proofs.Printing.Forms

set_option autoImplicit false

namespace NumericPython

open Grammar Lowering Printing

inductive Place where
  | value
  | index

/-- The expressions whose text has one meaning: numbers are finite, names are identifiers about
whose variables nothing is known, slices are indices, and no call is turned into another node. -/
inductive Writable (alphabet : Alphabet) : Place → Expr → Prop
  | integer (value : Int64) : Writable alphabet .value (.integer value)
  | float {x : Binary64} (finite : x.isFinite = true) : Writable alphabet .value (.float x)
  | complex {x : Binary64} (finite : x.isFinite = true) : Writable alphabet .value (.complex x)
  | boolean (value : Bool) : Writable alphabet .value (.boolean value)
  | string (text : String) : Writable alphabet .value (.string text)
  | nil : Writable alphabet .value .nil
  | symbol {name : String} (isName : IsName alphabet name) :
      Writable alphabet .value (.symbol (.plain name))
  | dotted {name : DottedName} (names : ∀ part ∈ name.parts, IsName alphabet part) :
      Writable alphabet .value (.dotted name)
  | tuple {items : List Expr} (writable : ∀ e ∈ items, Writable alphabet .value e) :
      Writable alphabet .value (.tuple items)
  | binary (op : BinaryOperator) {left right : Expr} (first : Writable alphabet .value left)
      (second : Writable alphabet .value right) : Writable alphabet .value (.binary op left right)
  | unary (op : UnaryOperator) {operand : Expr} (writable : Writable alphabet .value operand) :
      Writable alphabet .value (.unary op operand)
  | call {callee : Name} {args : List Expr} (isCallee : IsCallee alphabet callee)
      (notRange : callee = .symbol (.plain "range") → args.length ∉ [1, 2, 3])
      (writable : ∀ e ∈ args, Writable alphabet .value e) :
      Writable alphabet .value (.call callee args)
  | range {start stop step : Expr} (first : Writable alphabet .value start)
      (second : Writable alphabet .value stop) (third : Writable alphabet .value step) :
      Writable alphabet .value (.range start stop step)
  | indexed {base index : Expr} {more : List Expr} (writable : Writable alphabet .value base)
      (indices : ∀ e ∈ index :: more, Writable alphabet .index e) :
      Writable alphabet .value (.indexed base index more)
  | element {e : Expr} (writable : Writable alphabet .value e) : Writable alphabet .index e
  | slice {start stop step : Option Expr} (first : ∀ e ∈ start, Writable alphabet .value e)
      (second : ∀ e ∈ stop, Writable alphabet .value e)
      (third : ∀ e ∈ step, Writable alphabet .value e) :
      Writable alphabet .index (.slice start stop step)

variable {alphabet : Alphabet}

/-- The expression has a text that is read as the expression. -/
def Recovered (alphabet : Alphabet) : Place → Expr → Prop
  | .value, e => ∃ text, exprText e = .ok text ∧
      Spelled alphabet (.at (Precedence.ofExpr e)) e text.toList
  | .index, e => ∃ text, (sliceText? e).getD (exprText e) = .ok text ∧
      Spelled alphabet .index e text.toList

theorem recovered_tuple {items : List Expr} (recovered : ∀ e ∈ items, Recovered alphabet .value e) :
    ∃ texts, exprTexts items = .ok texts ∧ List.Forall₂
      (fun e text => Spelled alphabet (.at .or) e (String.toList text)) items texts := by
  rw [exprTexts_eq_mapM]
  refine mapM_forall₂ fun e member => ?_
  obtain ⟨text, printed, spelled⟩ := recovered e member
  exact ⟨text, printed, spelled.weaken (or_le _)⟩

theorem recovered_indices {indices : List Expr}
    (recovered : ∀ e ∈ indices, Recovered alphabet .index e) :
    ∃ texts, indexTexts indices = .ok texts ∧ List.Forall₂
      (fun e text => Spelled alphabet .index e (String.toList text)) indices texts := by
  rw [indexTexts_eq_mapM]
  exact mapM_forall₂ recovered

theorem toList_operation (left right : String) (op : BinaryOperator) :
    (left ++ " " ++ op.text ++ " " ++ right).toList =
      left.toList ++ ([' '] ++ (op.text.toList ++ ([' '] ++ right.toList))) := by
  simp

theorem next_le {p q : Precedence} (lt : p < q) : p.next ≤ q := by
  revert lt
  cases p <;> cases q <;> decide

theorem lt_next {p : Precedence} (notAtom : p ≠ .atom) : p < p.next := by
  revert notAtom
  cases p <;> decide

theorem le_of_not_lt {p q : Precedence} (notLess : ¬q < p) : p ≤ q :=
  Nat.not_lt.1 notLess

theorem lt_of_not_le {p q : Precedence} (notLess : ¬q ≤ p) : p < q :=
  Nat.not_le.1 notLess

theorem recovered_binary (op : BinaryOperator) {left right : Expr}
    (first : Recovered alphabet .value left) (second : Recovered alphabet .value right) :
    Recovered alphabet .value (.binary op left right) := by
  obtain ⟨leftText, leftPrinted, leftSpelled⟩ := first
  obtain ⟨rightText, rightPrinted, rightSpelled⟩ := second
  refine ⟨_, ExprForm.written (.binary leftPrinted rightPrinted), ?_⟩
  rw [toList_operation, Precedence.ofExpr]
  by_cases isPower : op = .pow
  · -- A power groups to the right: on its own level only the left operand is wrapped.
    subst isPower
    refine spelled_power (spelled_parenthesized leftSpelled fun notWrapped => ?_)
      (spelled_parenthesized rightSpelled fun notWrapped => ?_)
    · simp only [Precedence.wrapsLeft, if_true, decide_eq_false_iff_not] at notWrapped
      exact next_le (lt_of_not_le notWrapped)
    · simp only [Precedence.wrapsRight, if_true, decide_eq_false_iff_not] at notWrapped
      exact le_of_not_lt notWrapped
  · by_cases isComparison : op.isComparison = true
    · -- A comparison in a comparison is wrapped on both sides: it would be read as a chain.
      have level : Precedence.ofOperator op = .comparison := by
        revert isComparison
        cases op <;> decide
      rw [level]
      refine spelled_comparison isComparison
        (spelled_parenthesized leftSpelled fun notWrapped => ?_)
        (spelled_parenthesized rightSpelled fun notWrapped => ?_)
      · simp only [Precedence.wrapsLeft, isPower, isComparison, if_true, if_false,
          decide_eq_false_iff_not] at notWrapped
        exact next_le (lt_of_not_le notWrapped)
      · simp only [Precedence.wrapsRight, isPower, isComparison, if_true, if_false,
          decide_eq_false_iff_not] at notWrapped
        exact next_le (lt_of_not_le notWrapped)
    · -- The other operators group to the left: on its own level only the right operand is wrapped.
      have groups : op.isBoolean = true ∨ op.isArithmetic = true ∧ op ≠ .pow := by
        revert isComparison isPower
        cases op <;> decide
      have notAtom : Precedence.ofOperator op ≠ .atom := by
        cases op <;> decide
      refine spelled_leftGrouping groups (lt_next notAtom)
        (spelled_parenthesized leftSpelled fun notWrapped => ?_)
        (spelled_parenthesized rightSpelled fun notWrapped => ?_)
      · simp only [Precedence.wrapsLeft, isPower, isComparison, if_false, Bool.false_eq_true,
          decide_eq_false_iff_not] at notWrapped
        exact le_of_not_lt notWrapped
      · simp only [Precedence.wrapsRight, isPower, isComparison, if_false, Bool.false_eq_true,
          decide_eq_false_iff_not] at notWrapped
        exact next_le (lt_of_not_le notWrapped)

theorem recovered_unary (op : UnaryOperator) {operand : Expr}
    (recovered : Recovered alphabet .value operand) :
    Recovered alphabet .value (.unary op operand) := by
  obtain ⟨text, printed, spelled⟩ := recovered
  cases op with
  | neg =>
      refine ⟨_, ExprForm.written (.neg printed), ?_⟩
      rw [String.toList_append]
      refine spelled_negation spelled (fun notWrapped => ?_) fun isLiteral => ?_
      · simp only [Precedence.wrapsOperand, Bool.or_eq_false_iff, decide_eq_false_iff_not]
          at notWrapped
        exact le_of_not_lt notWrapped.2
      · simp [Precedence.wrapsOperand, isLiteral]
  | not =>
      refine ⟨_, ExprForm.written (.not printed), ?_⟩
      have words : ("not " ++ parenthesized (Precedence.wrapsOperand .not operand) text).toList =
          "not".toList ++ ([' '] ++
            (parenthesized (Precedence.wrapsOperand .not operand) text).toList) := by
        simp
      rw [words]
      refine spelled_not (spelled_parenthesized spelled fun notWrapped => ?_)
      simp only [Precedence.wrapsOperand, decide_eq_false_iff_not] at notWrapped
      exact le_of_not_lt notWrapped

theorem isName_range : IsName alphabet "range" :=
  @isWord_ascii alphabet 'r' ['a', 'n', 'g', 'e'] (by decide) (by decide)

theorem callExpr_of_notRange {callee : Name} (isCallee : IsCallee alphabet callee)
    {args : List Expr} (notRange : callee = .symbol (.plain "range") → args.length ∉ [1, 2, 3]) :
    callExpr callee args = .call callee args := by
  cases callee with
  | dotted name => rfl
  | symbol symbol =>
      obtain ⟨name, info⟩ := symbol
      obtain ⟨rfl, _⟩ := isCallee
      by_cases isRange : name = "range"
      · subst isRange
        have other := notRange rfl
        have found : Resolve.ofCallName? "range" = some .range := by decide
        have refused : (Expr.ofIntrinsic .range args).toOption = none := by
          rcases args with _ | ⟨a, _ | ⟨b, _ | ⟨c, _ | ⟨d, rest⟩⟩⟩⟩
          · rfl
          · simp at other
          · simp at other
          · simp at other
          · rfl
        simp only [callExpr, if_true, Resolve.call?, found, Option.bind_some, refused,
          Option.getD_none]
      · simp only [callExpr, isRange, if_false]

theorem recovered_call {callee : Name} {args : List Expr} (isCallee : IsCallee alphabet callee)
    (notRange : callee = .symbol (.plain "range") → args.length ∉ [1, 2, 3])
    (recovered : ∀ e ∈ args, Recovered alphabet .value e) :
    Recovered alphabet .value (.call callee args) := by
  obtain ⟨texts, printed, spelled⟩ := recovered_tuple recovered
  refine ⟨_, ExprForm.written (.call printed), ?_⟩
  have call := spelled_callExpr isCallee spelled
  rwa [callExpr_of_notRange isCallee notRange] at call

theorem recovered_range {start stop step : Expr} (first : Recovered alphabet .value start)
    (second : Recovered alphabet .value stop) (third : Recovered alphabet .value step) :
    Recovered alphabet .value (.range start stop step) := by
  obtain ⟨startText, printed₁, spelled₁⟩ := first
  obtain ⟨stopText, printed₂, spelled₂⟩ := second
  obtain ⟨stepText, printed₃, spelled₃⟩ := third
  refine ⟨_, ExprForm.written (.range printed₁ printed₂ printed₃), ?_⟩
  have isCallee : IsCallee alphabet (.symbol (.plain "range")) := ⟨rfl, isName_range⟩
  have call := spelled_callExpr isCallee (.cons (spelled₁.weaken (or_le _))
    (.cons (spelled₂.weaken (or_le _)) (.cons (spelled₃.weaken (or_le _)) .nil)))
  have isRange : callExpr (.symbol (.plain "range")) [start, stop, step] =
      .range start stop step := by
    have found : Resolve.ofCallName? "range" = some .range := by decide
    simp only [callExpr, Symbol.plain, if_true, Resolve.call?, found, Option.bind_some,
      Expr.ofIntrinsic]
    rfl
  rwa [isRange] at call

theorem printed_indexed {base index : Expr} {more : List Expr}
    (recovered : Recovered alphabet .value base)
    (indices : ∀ e ∈ index :: more, Recovered alphabet .index e) :
    ∃ text, exprText (.indexed base index more) = .ok text ∧ ∀ start, ∃ tokens tree,
      Spells alphabet (.at .atom) (.indexed base index more) start text.toList tokens tree ∧
        tree.kind = "subscript" := by
  obtain ⟨baseText, printed, spelled⟩ := recovered
  obtain ⟨first, printedIndex, spelledIndex⟩ := indices index (.head _)
  obtain ⟨texts, printedMore, spelledMore⟩ :=
    recovered_indices fun e member => indices e (.tail _ member)
  refine ⟨_, ExprForm.written (.indexed printed printedIndex printedMore), ?_⟩
  refine spells_indexed (spelled_parenthesized spelled fun notWrapped => ?_)
    (.cons spelledIndex spelledMore)
  simp only [Precedence.wrapsBase, decide_eq_false_iff_not] at notWrapped
  exact le_of_not_lt notWrapped

theorem recovered_indexed {base index : Expr} {more : List Expr}
    (recovered : Recovered alphabet .value base)
    (indices : ∀ e ∈ index :: more, Recovered alphabet .index e) :
    Recovered alphabet .value (.indexed base index more) := by
  obtain ⟨text, printed, spelled⟩ := printed_indexed recovered indices
  refine ⟨text, printed, fun start => ?_⟩
  obtain ⟨tokens, tree, spells, _⟩ := spelled start
  exact ⟨tokens, tree, spells⟩

theorem recovered_element {e : Expr} (notSlice : sliceText? e = none)
    (recovered : Recovered alphabet .value e) : Recovered alphabet .index e := by
  obtain ⟨text, printed, spelled⟩ := recovered
  refine ⟨text, by rw [notSlice]; exact printed, fun start => ?_⟩
  obtain ⟨tokens, tree, spells⟩ := spelled start
  exact ⟨tokens, tree, spells.head, spells.segment, .element (.weaken (or_le _) spells.derives),
    fun source holds => (spells.reads source holds).readsIndex⟩

theorem recovered_optional {part : Option Expr}
    (recovered : ∀ e ∈ part, Recovered alphabet .value e) :
    ∃ text, partText part = .ok text ∧ SpelledOptional alphabet part text.toList := by
  cases part with
  | none => exact ⟨"", rfl, rfl⟩
  | some e =>
      obtain ⟨text, printed, spelled⟩ := recovered e rfl
      exact ⟨text, printed, spelled.weaken (or_le _)⟩

theorem recovered_slice {start stop step : Option Expr}
    (first : ∀ e ∈ start, Recovered alphabet .value e)
    (second : ∀ e ∈ stop, Recovered alphabet .value e)
    (third : ∀ e ∈ step, Recovered alphabet .value e) :
    Recovered alphabet .index (.slice start stop step) := by
  obtain ⟨startText, printed₁, spelled₁⟩ := recovered_optional first
  obtain ⟨stopText, printed₂, spelled₂⟩ := recovered_optional second
  obtain ⟨stepText, printed₃, spelled₃⟩ := recovered_optional third
  refine ⟨startText ++ ":" ++ stopText ++ (if step.isSome then ":" ++ stepText else ""), ?_, ?_⟩
  · rw [sliceText?, Option.getD_some, printed₁, ok_bind, printed₂, ok_bind, printed₃, ok_bind]
  · cases step with
    | none =>
        have slice := spelled_slice spelled₁ spelled₂
        simpa using slice
    | some step =>
        have slice := spelled_stepped spelled₁ spelled₂ spelled₃
        simpa using slice

theorem Writable.notSlice {e : Expr} (writable : Writable alphabet .value e) :
    sliceText? e = none := by
  cases writable <;> rw [sliceText?] <;> (rintro _ _ _ ⟨⟩)

theorem Writable.recovered {place : Place} {e : Expr} (writable : Writable alphabet place e) :
    Recovered alphabet place e := by
  induction writable with
  | integer value => exact ⟨_, ExprForm.written (.integer value), spelled_integer value⟩
  | @float x finite =>
      exact ⟨x.text .source, ExprForm.written (.float (if_pos finite)), spelled_float finite⟩
  | @complex x finite =>
      refine ⟨x.text .source ++ "j", ExprForm.written (.complex (if_pos finite)), ?_⟩
      rw [String.toList_append]
      exact spelled_complex finite
  | boolean value => exact ⟨_, ExprForm.written (.boolean value), spelled_boolean value⟩
  | string text =>
      refine ⟨_, ExprForm.written (.string text), ?_⟩
      rw [String.toList_ofList]
      exact spelled_string text
  | nil => exact ⟨_, ExprForm.written .nil, spelled_nil⟩
  | symbol isName => exact ⟨_, ExprForm.written (.symbol _), spelled_name isName⟩
  | dotted names => exact ⟨_, ExprForm.written (.dotted _), spelled_dotted names⟩
  | tuple _ recovered =>
      obtain ⟨texts, printed, spelled⟩ := recovered_tuple recovered
      exact ⟨_, ExprForm.written (.tuple printed), spelled_tupleText spelled⟩
  | binary op _ _ first second => exact recovered_binary op first second
  | unary op _ recovered => exact recovered_unary op recovered
  | call isCallee notRange _ recovered => exact recovered_call isCallee notRange recovered
  | range _ _ _ first second third => exact recovered_range first second third
  | indexed _ _ recovered indices => exact recovered_indexed recovered indices
  | element writable recovered => exact recovered_element writable.notSlice recovered
  | slice _ _ _ first second third => exact recovered_slice first second third

theorem Grammar.Lexes.holds {start : Nat} {text : List Char} {tokens : List Token}
    (lexes : Lexes alphabet start text tokens) {source : Source} {before : List Char}
    (whole : source.chars = before ++ text) (place : start = Text.byteSize before) :
    ∀ token ∈ tokens, token.Holds source :=
  @Lexes.holdsAt _ _ _ _ lexes source before [] (by simpa using whole) place

/-- Printing and reading are inverse: the text of an expression is one in the grammar, in one way,
and its tree is lowered to the expression. -/
theorem printed_expression_reads_back (settings : Settings) {e : Expr}
    (writable : Writable alphabet .value e) :
    ∃ text tree, Node.print settings (.expr e) = .ok text ∧ Parses alphabet text tree ∧
      (∀ other, Parses alphabet text other → other = tree) ∧
      lowerExpr (tree.convert (.ofString text) none) = .ok e := by
  obtain ⟨text, printed, spelled⟩ := writable.recovered
  obtain ⟨tokens, tree, spells⟩ := spelled 0
  have lexes := spells.segment.lexes
  have parses : Parses alphabet text tree := ⟨tokens, lexes, .weaken (or_le _) spells.derives⟩
  refine ⟨text, tree, printed, parses, fun other parses' => parses'.unique parses, ?_⟩
  have reads : Reads (.ofString text) tree e :=
    spells.reads _ (@Grammar.Lexes.holds _ _ _ _ lexes (.ofString text) [] rfl rfl)
  exact reads.lower none

theorem negated_power_reads_back :
    ∃ text tree,
      Node.print {} (.expr (.binary .lt
        (.binary .pow (.integer (-2)) (.unary .neg (.symbol (.plain "x"))))
        (.indexed (.symbol (.plain "a")) (.slice (some (.integer 1)) none none) []))) = .ok text ∧
      Parses .ascii text tree ∧ (∀ other, Parses .ascii text other → other = tree) ∧
      lowerExpr (tree.convert (.ofString text) none) = .ok (.binary .lt
        (.binary .pow (.integer (-2)) (.unary .neg (.symbol (.plain "x"))))
        (.indexed (.symbol (.plain "a")) (.slice (some (.integer 1)) none none) [])) := by
  have isName : ∀ name ∈ ["x", "a"], IsName .ascii name := by
    intro name member
    rcases List.mem_cons.1 member with rfl | member
    · exact @IsWord.name .ascii 'x' [] rfl (by rintro _ ⟨⟩)
    · rw [List.mem_singleton.1 member]
      exact @IsWord.name .ascii 'a' [] rfl (by rintro _ ⟨⟩)
  have slice : Writable .ascii .index (.slice (some (.integer 1)) none none) :=
    .slice (by rintro _ ⟨⟩; exact .integer 1) (by rintro _ ⟨⟩) (by rintro _ ⟨⟩)
  refine printed_expression_reads_back {} (.binary .lt
    (.binary .pow (.integer (-2)) (.unary .neg (.symbol (isName "x" (by decide)))))
    (.indexed (.symbol (isName "a" (by decide))) fun e member => ?_))
  rw [List.mem_singleton.1 member]
  exact slice

end NumericPython
