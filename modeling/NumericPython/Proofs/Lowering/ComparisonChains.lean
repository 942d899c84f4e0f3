import NumericPython.Proofs.Lowering.Children
import NumericPython.Proofs.Printing.Forms

set_option autoImplicit false

namespace NumericPython

universe u v

/-- How expressions are evaluated. Operands have values, and looking at them changes nothing; a
comparison of two values may give any value and may have effects. -/
structure Evaluation (Value : Type u) (State : Type v) where
  operand : Expr → Value
  compare : BinaryOperator → Value → Value → State → Value × State
  isTruthy : Value → Bool

namespace Evaluation

variable {Value : Type u} {State : Type v}

/-- Runs the comparisons of an expression. A conjunction is the value of its left side if that is
falsy and the value of its right side otherwise. -/
def run (evaluation : Evaluation Value State) : Expr → State → Value × State
  | .binary .and left right, state =>
    let result := evaluation.run left state
    if evaluation.isTruthy result.1 then evaluation.run right result.2 else result
  | .binary op left right, state =>
    if op.isComparison then
      evaluation.compare op (evaluation.operand left) (evaluation.operand right) state
    else (evaluation.operand (.binary op left right), state)
  | e, state => (evaluation.operand e, state)

def outcomes (evaluation : Evaluation Value State) :
    Expr → List (BinaryOperator × Expr) → State → List (Value × State)
  | _, [], _ => []
  | left, (op, right) :: rest, state =>
    let result :=
      evaluation.compare op (evaluation.operand left) (evaluation.operand right) state
    result :: evaluation.outcomes right rest result.2

/-- The first falsy result, or the last one. -/
def decisive? (evaluation : Evaluation Value State) (results : List (Value × State)) :
    Option (Value × State) :=
  results.find? (fun result => !evaluation.isTruthy result.1) <|> results.getLast?

variable {evaluation : Evaluation Value State} {state : State}

theorem run_and (left right : Expr) :
    evaluation.run (.binary .and left right) state =
      if evaluation.isTruthy (evaluation.run left state).1 then
        evaluation.run right (evaluation.run left state).2
      else evaluation.run left state := by
  rw [run]

theorem run_comparison {op : BinaryOperator} (comparison : op.isComparison = true)
    (left right : Expr) :
    evaluation.run (.binary op left right) state =
      evaluation.compare op (evaluation.operand left) (evaluation.operand right) state := by
  have other : op ≠ .and := by
    rintro rfl
    cases comparison
  rw [run, if_pos comparison]
  exact fun same => other same

theorem run_conjunction (first : Expr) (rest : List Expr) :
    evaluation.run (rest.foldl (.binary .and) first) state =
      rest.foldl (fun result e =>
        if evaluation.isTruthy result.1 then evaluation.run e result.2 else result)
        (evaluation.run first state) := by
  induction rest generalizing first with
  | nil => rfl
  | cons e rest ih => rw [List.foldl_cons, List.foldl_cons, ih, run_and]

theorem foldl_of_falsy {rest : List Expr} {result : Value × State}
    (falsy : evaluation.isTruthy result.1 = false) :
    rest.foldl (fun result e =>
      if evaluation.isTruthy result.1 then evaluation.run e result.2 else result) result =
        result := by
  induction rest with
  | nil => rfl
  | cons e rest ih => simpa [falsy] using ih

theorem decisive?_cons_of_falsy {result : Value × State} {rest : List (Value × State)}
    (falsy : evaluation.isTruthy result.1 = false) :
    evaluation.decisive? (result :: rest) = some result := by
  simp [decisive?, falsy]

theorem decisive?_cons_of_truthy {result next : Value × State} {rest : List (Value × State)}
    (truthy : evaluation.isTruthy result.1 = true) :
    evaluation.decisive? (result :: next :: rest) = evaluation.decisive? (next :: rest) := by
  simp [decisive?, List.find?_cons, truthy]

theorem decisive?_outcomes {first second : Expr} {op : BinaryOperator}
    {rest : List (BinaryOperator × Expr)} (comparison : op.isComparison = true)
    (comparisons : ∀ pair ∈ rest, pair.1.isComparison = true) :
    evaluation.decisive? (evaluation.outcomes first ((op, second) :: rest) state) =
      some (evaluation.run
        ((Lowering.pairwise second rest).foldl (.binary .and) (.binary op first second))
        state) := by
  -- What is behind a link is run from its result: either this decides the chain, and the rest of the
  -- conjunction keeps it, or the chain that starts at the next link is the same one.
  rw [run_conjunction, run_comparison comparison]
  induction rest generalizing first second op state with
  | nil =>
      rw [Lowering.pairwise, List.foldl_nil, outcomes, outcomes, decisive?]
      simp only [List.find?_cons, List.find?_nil, List.getLast?_singleton]
      split <;> rfl
  | cons pair rest ih =>
      obtain ⟨next, third⟩ := pair
      rw [List.forall_mem_cons] at comparisons
      rw [Lowering.pairwise, List.foldl_cons, outcomes]
      set result := evaluation.compare op (evaluation.operand first) (evaluation.operand second)
        state
      by_cases truthy : evaluation.isTruthy result.1 = true
      · rw [if_pos truthy, run_comparison comparisons.1, ← ih comparisons.1 comparisons.2]
        exact decisive?_cons_of_truthy truthy
      · rw [Bool.not_eq_true] at truthy
        rw [if_neg (by simp [truthy]), foldl_of_falsy truthy]
        exact decisive?_cons_of_falsy truthy

end Evaluation

namespace Lowering

open NumericPython.Tree Printing

def comparisonTexts : List (String × BinaryOperator) :=
  [("==", .eq), ("!=", .ne), ("<>", .ne), ("<", .lt), ("<=", .le), (">", .gt), (">=", .ge)]

theorem ofText?_eq_some_iff {text : String} {op : BinaryOperator} :
    BinaryOperator.ofText? text = some op ↔ text = op.text ∨ text = "<>" ∧ op = .ne := by
  constructor
  · intro read
    unfold BinaryOperator.ofText? at read
    split at read
    next other =>
      cases read
      exact .inr ⟨other, rfl⟩
    next =>
      have same := List.find?_some read
      exact .inl (eq_of_beq same).symm
  · rintro (rfl | ⟨rfl, rfl⟩)
    · exact BinaryOperator.ofText?_text op
    · rfl

theorem mem_comparisonTexts_iff {text : String} {op : BinaryOperator} :
    (text, op) ∈ comparisonTexts ↔
      BinaryOperator.ofText? text = some op ∧ op.isComparison = true := by
  rw [ofText?_eq_some_iff]
  cases op <;> simp [comparisonTexts, BinaryOperator.isComparison, BinaryOperator.text]

section Chain

variable {tree : Tree} {operands : List Expr}

theorem lowerOperator_comparison_iff {token : Tree} {op : BinaryOperator} :
    lowerOperator BinaryOperator.isComparison token = .ok op ↔
      (token.text, op) ∈ comparisonTexts := by
  rw [mem_comparisonTexts_iff, lowerOperator]
  split
  next found read =>
    rw [read, Option.some_inj]
    split
    next comparison =>
      constructor
      · rintro ⟨⟩
        exact ⟨rfl, comparison⟩
      · rintro ⟨rfl, -⟩
        rfl
    next other =>
      constructor
      · rintro ⟨⟩
      · rintro ⟨rfl, comparison⟩
        exact absurd comparison other
  next missing => simp [missing]

theorem comparisonOperators_iff {operators : List BinaryOperator} :
    comparisonOperators tree.children = .ok operators ↔
      List.Forall₂ (fun token op => (token.text, op) ∈ comparisonTexts) tree.tokens operators := by
  rw [comparisonOperators, mapM_eq_ok, Tree.tokens]
  simp only [lowerOperator_comparison_iff]

theorem lowerNamed_of_forall₂ {children : List Tree}
    (lowers : List.Forall₂ (fun child e => lowerExpr child = .ok e)
      (children.filter (!·.isToken)) operands) :
    lowerNamed children = .ok operands := by
  rw [lowerNamed_eq, mapM_eq_ok]
  exact lowers

theorem chain?_eq_some_iff {operators : List BinaryOperator} {e : Expr} :
    chain? operands operators = some e ↔
      ∃ first op second rest, operands = first :: second :: rest.map Prod.snd ∧
        operators = op :: rest.map Prod.fst ∧
        e = (pairwise second rest).foldl (.binary .and) (.binary op first second) := by
  constructor
  · intro built
    unfold chain? at built
    split at built
    next => cases built
    next first others =>
      split at built
      next length =>
        rcases operators with _ | ⟨op, operators⟩
        · rw [List.zip_nil_left, pairwise] at built
          cases built
        · rcases others with _ | ⟨second, others⟩
          · cases length
          · simp only [List.zip_cons_cons, pairwise, Option.some.injEq] at built
            have same : others.length = operators.length := by simpa using length
            refine ⟨first, op, second, operators.zip others, ?_, ?_, built.symm⟩
            · rw [List.map_snd_zip (by omega)]
            · rw [List.map_fst_zip (by omega)]
      next => cases built
  · rintro ⟨first, op, second, rest, rfl, rfl, rfl⟩
    have pairs : (rest.map Prod.fst).zip (rest.map Prod.snd) = rest := by
      rw [List.zip_map', List.map_id']
    simp [chain?, pairwise, pairs]

theorem lowerExpr_comparison (kind : tree.kind = .comparisonOperator)
    (lowers : List.Forall₂ (fun child e => lowerExpr child = .ok e) tree.namedChildren operands) :
    lowerExpr tree = comparisonOperators tree.children >>= fun operators =>
      match chain? operands operators with
      | some e => .ok e
      | none => .error (.unsupported tree.kind.name tree.span) := by
  obtain ⟨_, span, text, field, children⟩ := tree
  subst kind
  rw [lowerExpr, lowerNamed_of_forall₂ lowers]
  rfl

theorem lowerExpr_chain_iff {e : Expr} (kind : tree.kind = .comparisonOperator)
    (lowers : List.Forall₂ (fun child e => lowerExpr child = .ok e) tree.namedChildren operands) :
    lowerExpr tree = .ok e ↔
      ∃ first op second rest, operands = first :: second :: rest.map Prod.snd ∧
        List.Forall₂ (fun token op => (token.text, op) ∈ comparisonTexts) tree.tokens
          (op :: rest.map Prod.fst) ∧
        e = (pairwise second rest).foldl (.binary .and) (.binary op first second) := by
  rw [lowerExpr_comparison kind lowers, bind_eq_ok]
  constructor
  · rintro ⟨operators, read, built⟩
    split at built
    next chained =>
      cases built
      obtain ⟨first, op, second, rest, rfl, rfl, rfl⟩ := chain?_eq_some_iff.1 chained
      exact ⟨first, op, second, rest, rfl, comparisonOperators_iff.1 read, rfl⟩
    next => cases built
  · rintro ⟨first, op, second, rest, rfl, read, rfl⟩
    refine ⟨_, comparisonOperators_iff.2 read, ?_⟩
    rw [chain?_eq_some_iff.2 ⟨first, op, second, rest, rfl, rfl, rfl⟩]

theorem exists_operators (read : ∀ token ∈ tree.tokens, ∃ op, (token.text, op) ∈ comparisonTexts) :
    ∃ operators, List.Forall₂ (fun token op => (token.text, op) ∈ comparisonTexts) tree.tokens
      operators := by
  have each : ∀ token ∈ tree.tokens, ∃ op,
      lowerOperator BinaryOperator.isComparison token = .ok op := by
    simpa only [lowerOperator_comparison_iff] using read
  obtain ⟨operators, all⟩ := mapM_written each
  exact ⟨operators, comparisonOperators_iff.1 all⟩

theorem isOk_comparison_iff (kind : tree.kind = .comparisonOperator)
    (lowers : List.Forall₂ (fun child e => lowerExpr child = .ok e) tree.namedChildren operands) :
    (∃ e, lowerExpr tree = .ok e) ↔
      tree.tokens ≠ [] ∧ operands.length = tree.tokens.length + 1 ∧
        ∀ token ∈ tree.tokens, ∃ op, (token.text, op) ∈ comparisonTexts := by
  simp only [lowerExpr_chain_iff kind lowers]
  constructor
  · rintro ⟨e, first, op, second, rest, rfl, read, -⟩
    have length := read.length_eq
    refine ⟨?_, by simpa using length.symm, ?_⟩
    · intro none
      rw [none] at length
      cases length
    · exact ((List.forall₂_and_left _ _).1
        (read.imp fun token op written => ⟨⟨op, written⟩, written⟩)).1
  · rintro ⟨some_token, length, each⟩
    obtain ⟨operators, read⟩ := exists_operators each
    rw [read.length_eq] at length
    rcases operators with _ | ⟨op, operators⟩
    · exact absurd (List.forall₂_nil_right_iff.1 read) some_token
    · obtain ⟨first, second, others, rfl⟩ : ∃ first second others,
          operands = first :: second :: others := by
        match operands, length with
        | first :: second :: others, _ => exact ⟨first, second, others, rfl⟩
      have same : operators.length = others.length := by simpa using length.symm
      refine ⟨_, first, op, second, operators.zip others, ?_, ?_, rfl⟩
      · rw [List.map_snd_zip (by omega)]
      · rwa [List.map_fst_zip (by omega)]

/-- A chain of comparisons is lowered if its operators are comparisons and one less than its
operands; the result evaluates to the first falsy comparison of neighbouring operands or to the last
one, and no comparison behind that is made. -/
theorem comparison_chain_keeps_meaning (kind : tree.kind = .comparisonOperator)
    (lowers : List.Forall₂ (fun child e => lowerExpr child = .ok e) tree.namedChildren operands) :
    ((∃ e, lowerExpr tree = .ok e) ↔
      tree.tokens ≠ [] ∧ operands.length = tree.tokens.length + 1 ∧
        ∀ token ∈ tree.tokens, ∃ op, (token.text, op) ∈ comparisonTexts) ∧
    ∀ e, lowerExpr tree = .ok e →
      ∃ first links, operands = first :: links.map Prod.snd ∧
        List.Forall₂ (fun token link => (token.text, link.1) ∈ comparisonTexts) tree.tokens links ∧
        ∀ {Value : Type u} {State : Type v} (evaluation : Evaluation Value State) (state : State),
          evaluation.decisive? (evaluation.outcomes first links state) =
            some (evaluation.run e state) := by
  refine ⟨isOk_comparison_iff kind lowers, fun e lowered => ?_⟩
  obtain ⟨first, op, second, rest, rfl, read, rfl⟩ := (lowerExpr_chain_iff kind lowers).1 lowered
  refine ⟨first, (op, second) :: rest, rfl, ?_, fun evaluation state => ?_⟩
  · have links : op :: rest.map Prod.fst = ((op, second) :: rest).map Prod.fst := rfl
    rwa [links, List.forall₂_map_right_iff] at read
  · have comparisons := ((List.forall₂_and_left _ _).1
      (read.flip.imp fun op token written => ⟨(mem_comparisonTexts_iff.1 written).2, written⟩)).1
    rw [List.forall_mem_cons, List.forall_mem_map] at comparisons
    exact Evaluation.decisive?_outcomes comparisons.1 comparisons.2

end Chain

/-- The comparison `0 <= i <> n`. -/
def boundedIndex : Tree :=
  ⟨.comparisonOperator, .ofRange 0 11, "0 <= i <> n", none,
    [.leaf .integer (.ofRange 0 1) "0" none, .leaf .token (.ofRange 2 4) "<=" (some "operators"),
     .leaf .identifier (.ofRange 5 6) "i" none, .leaf .token (.ofRange 7 9) "<>" (some "operators"),
     .leaf .identifier (.ofRange 10 11) "n" none]⟩

theorem bounded_index_keeps_meaning :
    let i := Expr.symbol (.plain "i")
    let n := Expr.symbol (.plain "n")
    let conjunction := Expr.binary .and (.binary .le (.integer 0) i) (.binary .ne i n)
    lowerExpr boundedIndex = .ok conjunction ∧
      ∃ first links, [.integer 0, i, n] = first :: links.map Prod.snd ∧
        List.Forall₂ (fun token link => (token.text, link.1) ∈ comparisonTexts)
          boundedIndex.tokens links ∧
        ∀ {Value : Type u} {State : Type v} (evaluation : Evaluation Value State) (state : State),
          evaluation.decisive? (evaluation.outcomes first links state) =
            some (evaluation.run conjunction state) := by
  intro i n conjunction
  have zero : lowerExpr (.leaf .integer (.ofRange 0 1) "0" none) = .ok (.integer 0) := by
    rfl
  have operands : List.Forall₂ (fun child e => lowerExpr child = .ok e)
      boundedIndex.namedChildren [.integer 0, i, n] :=
    .cons zero (.cons rfl (.cons rfl .nil))
  have lowered : lowerExpr boundedIndex = .ok conjunction := by
    rfl
  exact ⟨lowered, (comparison_chain_keeps_meaning rfl operands).2 _ lowered⟩

end Lowering

end NumericPython
