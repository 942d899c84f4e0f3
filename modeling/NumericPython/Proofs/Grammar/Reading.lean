import NumericPython.Proofs.Grammar.Parts

set_option autoImplicit false

namespace NumericPython

namespace Grammar

open RawTree Lowering

/-- The node is an expression that is lowered to `e`, in whichever field it stands. -/
structure Reads (source : Source) (tree : RawTree) (e : Expr) : Prop where
  sort : tree.treeKind ∉ [.token, .comment, .slice]
  lowers : ∀ field opener, lowerExpr (convert source opener { tree with field := field }) = .ok e

variable {source : Source}

theorem Reads.inField {tree : RawTree} {e : Expr} (reads : Reads source tree e) (field : String)
    (opener : Option Nat) : lowerExpr (convert source opener (tree.inField field)) = .ok e :=
  reads.lowers (some field) opener

theorem Reads.lower {tree : RawTree} {e : Expr} (reads : Reads source tree e)
    (opener : Option Nat) : lowerExpr (convert source opener tree) = .ok e := by
  cases tree
  exact reads.lowers _ opener

theorem Reads.notComment {tree : RawTree} {e : Expr} (reads : Reads source tree e) :
    tree.isComment = false := by
  have sort := reads.sort
  simp only [List.mem_cons, not_or] at sort
  exact isComment_of_treeKind sort.1 sort.2.1

theorem Reads.isToken {tree : RawTree} {e : Expr} (reads : Reads source tree e)
    {opener : Option Nat} : (convert source opener tree).isToken = false := by
  have sort := reads.sort
  simp only [List.mem_cons, not_or] at sort
  rw [convert_isToken]
  simpa using sort.1

theorem Reads.exprAt_parts {tree : RawTree} {e : Expr} {children : List RawTree} {field : String}
    (reads : Reads source tree e)
    (found : children.find? (·.field == some field) = some (tree.inField field))
    (opener : Option Nat) : exprAt field (convertParts source opener children) = some (.ok e) := by
  obtain ⟨opener', here⟩ := find_parts source found (by simp [reads.notComment]) opener
  rw [exprAt_eq, here, Option.map_some, reads.inField]

section Leaves

variable {token : Token} {e : Expr}

theorem reads_leaf {kind : Kind} (holds : token.Holds source)
    (sorted : token.leaf.treeKind = kind) (isLeaf : kind.isLeaf = true)
    (sort : kind ∉ [.token, .comment, .slice])
    (lowers : ∀ span field, lowerExpr ⟨kind, span, String.ofList token.text, field, []⟩ = .ok e) :
    Reads source token.leaf e := by
  refine ⟨by rwa [sorted], fun field opener => ?_⟩
  obtain ⟨span, converted⟩ := @convert_leaf source token kind field opener holds sorted isLeaf
  rw [converted, lowers]

theorem reads_name (isName : token.kind = .name) (holds : token.Holds source) :
    Reads source token.leaf (.symbol (.plain (String.ofList token.text))) :=
  @reads_leaf source _ _ .identifier holds (treeKind_leaf isName (by decide)) rfl (by decide) fun span field => by
    rw [lowerExpr]

theorem reads_integer (isInteger : token.kind = .integer) (holds : token.Holds source)
    (value : Literal.integer? false (String.ofList token.text) = some e) :
    Reads source token.leaf e :=
  @reads_leaf source _ _ .integer holds (treeKind_leaf isInteger (by decide)) rfl (by decide) fun span field => by
    rw [lowerExpr, lowerInteger, value]

theorem reads_float (isFloat : token.kind = .float) (holds : token.Holds source)
    (value : Literal.float? false (String.ofList token.text) = some e) :
    Reads source token.leaf e :=
  @reads_leaf source _ _ .float holds (treeKind_leaf isFloat (by decide)) rfl (by decide) fun span field => by
    rw [lowerExpr, lowerFloat, value]

theorem reads_string {text : List Char} (isString : token.kind = .string)
    (holds : token.Holds source) (value : Quoted.read token.text = .ok text) :
    Reads source token.leaf (.string (String.ofList text)) :=
  @reads_leaf source _ _ .string holds (treeKind_leaf isString (by decide)) rfl (by decide) fun span field => by
    rw [lowerExpr, lowerString, String.toList_ofList, value]

theorem reads_boolean {value : Bool}
    (isMark : token.isMark (if value then "True" else "False") = true)
    (holds : token.Holds source) : Reads source token.leaf (.boolean value) := by
  have same := Token.eq_of_isMark isMark
  cases value with
  | true =>
      refine @reads_leaf source _ _ .trueLiteral holds ?_ rfl (by decide) fun span field => by
        rw [lowerExpr]
      rw [same]
      rfl
  | false =>
      refine @reads_leaf source _ _ .falseLiteral holds ?_ rfl (by decide) fun span field => by
        rw [lowerExpr]
      rw [same]
      rfl

theorem reads_none (isMark : token.isMark "None" = true) (holds : token.Holds source) :
    Reads source token.leaf .nil := by
  refine @reads_leaf source _ _ .noneLiteral holds ?_ rfl (by decide) fun span field => by
    rw [lowerExpr]
  rw [Token.eq_of_isMark isMark]
  rfl

end Leaves

theorem reads_node {name : String} {kind : Kind} {children : List RawTree} {e : Expr}
    (sorted : Kind.ofGrammar name = kind) (plain : isPlain kind = true)
    (sort : kind ∉ [.token, .comment, .slice])
    (lowers : ∀ span text field,
      lowerExpr ⟨kind, span, text, field, convertParts source none children⟩ = .ok e) :
    Reads source (node name children) e := by
  refine ⟨?_, fun field opener => ?_⟩
  · rwa [treeKind_node sorted]
  · obtain ⟨span, text, converted⟩ := @convert_node source opener name kind children field sorted plain
    rw [converted, lowers]

section Operations

variable {operator : Token} {left right : RawTree} {a b : Expr} {op : BinaryOperator}

def operands (left : RawTree) (operator : Token) (right : RawTree) : List RawTree :=
  [left.inField "left", operator.leaf.inField "operator", right.inField "right"]

theorem binaryExpr_operands {accepts : BinaryOperator → Bool} {kind : Kind} {span : Span}
    (isOperator : operator.isMark op.text = true) (holds : operator.Holds source)
    (accepted : accepts op = true) (reads : Reads source left a) (reads' : Reads source right b) :
    binaryExpr accepts kind span (convertParts source none (operands left operator right))
      (exprAt "left" (convertParts source none (operands left operator right)))
      (exprAt "right" (convertParts source none (operands left operator right))) =
        .ok (.binary op a b) := by
  have punctuation : operator.IsPunctuation :=
    Token.punctuation_of_isMark isOperator (by cases op <;> decide)
  obtain ⟨opener, mark⟩ : ∃ opener, ∀ kind span, childAt kind span "operator"
      (convertParts source none (operands left operator right)) =
        .ok (convert source opener (operator.leaf.inField "operator")) :=
    childAt_parts source rfl (by simp [punctuation.2]) none
  have text : (convert source opener (operator.leaf.inField "operator")).text = op.text :=
    convert_leaf_text isOperator holds
  have first : exprAt "left" (convertParts source none (operands left operator right)) =
      some (.ok a) := reads.exprAt_parts rfl none
  have second : exprAt "right" (convertParts source none (operands left operator right)) =
      some (.ok b) := reads'.exprAt_parts rfl none
  rw [binaryExpr, mark, first, second]
  simp [required, lowerOperator, text, BinaryOperator.ofText?_text, accepted]

theorem reads_arithmetic (isOperator : operator.isMark op.text = true)
    (holds : operator.Holds source) (accepted : op.isArithmetic = true)
    (reads : Reads source left a) (reads' : Reads source right b) :
    Reads source (operationNode "binary_operator" left operator right) (.binary op a b) := by
  refine @reads_node source _ .binaryOperator _ _ rfl rfl (by decide) fun span text field => ?_
  rw [lowerExpr]
  exact binaryExpr_operands isOperator holds accepted reads reads'

theorem reads_boolean_operation (isOperator : operator.isMark op.text = true)
    (holds : operator.Holds source) (accepted : op.isBoolean = true)
    (reads : Reads source left a) (reads' : Reads source right b) :
    Reads source (operationNode "boolean_operator" left operator right) (.binary op a b) := by
  refine @reads_node source _ .booleanOperator _ _ rfl rfl (by decide) fun span text field => ?_
  rw [lowerExpr]
  exact binaryExpr_operands isOperator holds accepted reads reads'

theorem reads_comparison (isOperator : operator.isMark op.text = true)
    (holds : operator.Holds source) (accepted : op.isComparison = true)
    (reads : Reads source left a) (reads' : Reads source right b) :
    Reads source (comparisonNode ⟨left, [(operator, right)]⟩) (.binary op a b) := by
  have punctuation : operator.IsPunctuation :=
    Token.punctuation_of_isMark isOperator (by cases op <;> decide)
  refine @reads_node source _ .comparisonOperator _ _ rfl rfl (by decide) fun span text field => ?_
  have children : convertParts source none
      (Chain.nodes id (RawTree.inField "operators") ⟨left, [(operator, right)]⟩) =
      [convert source none left,
        convert source (some (source.rowAt left.stop)) (operator.leaf.inField "operators"),
        convert source (some (source.rowAt operator.leaf.stop)) right] := by
    simp only [Chain.nodes, List.flatMap_cons, List.flatMap_nil, List.append_nil, id]
    rw [convertParts_cons reads.notComment, convertParts_cons (by simp [punctuation.2]),
      convertParts_cons reads'.notComment, convertParts_nil]
    rfl
  have token (opener : Option Nat) :
      (convert source opener (operator.leaf.inField "operators")).isToken = true := by
    rw [convert_isToken, inField_treeKind, punctuation.1]
    rfl
  have text (opener : Option Nat) :
      (convert source opener (operator.leaf.inField "operators")).text = op.text :=
    convert_leaf_text isOperator holds
  rw [lowerExpr, children]
  simp only [lowerNamed, reads.isToken, reads'.isToken, token, Bool.false_eq_true, if_false, if_true,
    reads.lower, reads'.lower, ok_bind, comparisonOperators, List.filter_cons, List.filter_nil,
    List.mapM_cons, List.mapM_nil, lowerOperator, text, BinaryOperator.ofText?_text, accepted]
  rfl

theorem reads_not (reads : Reads source right a) :
    Reads source (prefixedNode "not_operator" operator.leaf right) (.unary .not a) := by
  refine @reads_node source _ .notOperator _ _ rfl rfl (by decide) fun span text field => ?_
  rw [lowerExpr, reads.exprAt_parts rfl]
  rfl

def negated (operator : Token) (argument : RawTree) : List RawTree :=
  [operator.leaf.inField "operator", argument.inField "argument"]

theorem reads_negation_of (isOperator : operator.isMark "-" = true) (holds : operator.Holds source)
    (notComment : right.isComment = false)
    (lowers : ∀ opener, lowerNegated (convert source opener (right.inField "argument")) = .ok a) :
    Reads source (prefixedNode "unary_operator" (operator.leaf.inField "operator") right) a := by
  have punctuation : operator.IsPunctuation :=
    Token.punctuation_of_isMark isOperator (by decide)
  refine @reads_node source _ .unaryOperator (negated operator right) _ rfl rfl (by decide)
    fun span text field => ?_
  obtain ⟨opener, mark⟩ : ∃ opener, ∀ kind span, childAt kind span "operator"
      (convertParts source none (negated operator right)) =
        .ok (convert source opener (operator.leaf.inField "operator")) :=
    childAt_parts source rfl (by simp [punctuation.2]) none
  obtain ⟨opener', argument⟩ : ∃ opener',
      (convertParts source none (negated operator right)).find? (·.fills "argument") =
        some (convert source opener' (right.inField "argument")) :=
    find_parts source rfl (by simp [notComment]) none
  have sign : (convert source opener (operator.leaf.inField "operator")).text = "-" :=
    convert_leaf_text isOperator holds
  rw [lowerExpr, mark, ok_bind, childAt, negatedArgument_eq, argument, Option.map_some,
    Option.map_some, lowers, if_pos sign]
  rfl

theorem reads_negated_literal {token : Token} {kind : Kind} (isOperator : operator.isMark "-" = true)
    (holds : operator.Holds source) (sorted : token.leaf.treeKind = kind)
    (number : kind ∈ [.integer, .float]) (holds' : token.Holds source)
    (value : ∀ span field, lowerNegated ⟨kind, span, String.ofList token.text, field, []⟩ = .ok a) :
    Reads source (prefixedNode "unary_operator" (operator.leaf.inField "operator") token.leaf) a := by
  have leaves : ∀ kind ∈ [Kind.integer, .float],
      kind ≠ .token ∧ kind ≠ .comment ∧ kind.isLeaf = true := by decide
  obtain ⟨notToken, notComment, isLeaf⟩ := leaves kind number
  refine reads_negation_of isOperator holds
    (isComment_of_treeKind (by rwa [sorted]) (by rwa [sorted])) fun opener => ?_
  obtain ⟨span, converted⟩ :=
    @convert_leaf source token kind (some "argument") opener holds' sorted isLeaf
  rw [RawTree.inField, converted, value]

theorem reads_negated_integer {token : Token} (isOperator : operator.isMark "-" = true)
    (holds : operator.Holds source) (isInteger : token.kind = .integer)
    (holds' : token.Holds source)
    (value : Literal.integer? true (String.ofList token.text) = some a) :
    Reads source (prefixedNode "unary_operator" (operator.leaf.inField "operator") token.leaf) a :=
  reads_negated_literal isOperator holds (treeKind_leaf isInteger (by decide)) (by decide) holds'
    fun span field => by simp [lowerNegated, TokenKind.leafKind, lowerInteger, value]

theorem reads_negated_float {token : Token} (isOperator : operator.isMark "-" = true)
    (holds : operator.Holds source) (isFloat : token.kind = .float) (holds' : token.Holds source)
    (value : Literal.float? true (String.ofList token.text) = some a) :
    Reads source (prefixedNode "unary_operator" (operator.leaf.inField "operator") token.leaf) a :=
  reads_negated_literal isOperator holds (treeKind_leaf isFloat (by decide)) (by decide) holds'
    fun span field => by simp [lowerNegated, TokenKind.leafKind, lowerFloat, value]

theorem reads_negation (isOperator : operator.isMark "-" = true) (holds : operator.Holds source)
    (reads : Reads source right a) (notInteger : right.treeKind ≠ .integer)
    (notFloat : right.treeKind ≠ .float) :
    Reads source (prefixedNode "unary_operator" (operator.leaf.inField "operator") right)
      (.unary .neg a) := by
  refine reads_negation_of isOperator holds reads.notComment fun opener => ?_
  have kind : (convert source opener (right.inField "argument")).kind = right.treeKind :=
    convert_kind
  unfold lowerNegated
  split
  next same => exact absurd (kind.symm.trans same) notInteger
  next same => exact absurd (kind.symm.trans same) notFloat
  next =>
    rw [reads.inField]
    rfl

theorem reads_group {opening closing : Token} (opens : opening.isMark "(" = true)
    (closes : closing.isMark ")" = true) (reads : Reads source right a) :
    Reads source (bracketedNode "parenthesized_expression" opening [right] closing) a := by
  have punctuation := Token.punctuation_of_isMark opens (by decide)
  have punctuation' := Token.punctuation_of_isMark closes (by decide)
  refine @reads_node source _ .parenthesized _ _ rfl rfl (by decide) fun span text field => ?_
  simp only [List.cons_append, List.nil_append]
  rw [lowerExpr, convertParts_cons punctuation.2, convertParts_cons reads.notComment,
    convertParts_cons punctuation'.2, convertParts_nil]
  simp only [firstNamed, isToken_leaf punctuation, reads.isToken, Bool.false_eq_true, if_false,
    if_true, reads.lower]

end Operations

section Lists

variable {children : List RawTree} {es : List Expr}

def NamedReads (source : Source) (children : List RawTree) (es : List Expr) : Prop :=
  ∀ opener, lowerNamed (convertParts source opener children) = .ok es

theorem namedReads_nil : NamedReads source [] [] := by
  intro opener
  rw [convertParts_nil, lowerNamed]

theorem namedReads_mark {token : Token} (punctuation : token.IsPunctuation)
    (rest : NamedReads source children es) : NamedReads source (token.leaf :: children) es := by
  intro opener
  rw [convertParts_cons punctuation.2, lowerNamed, if_pos (isToken_leaf punctuation)]
  exact rest _

theorem namedReads_cons {tree : RawTree} {e : Expr} (reads : Reads source tree e)
    (rest : NamedReads source children es) : NamedReads source (tree :: children) (e :: es) := by
  intro opener
  rw [convertParts_cons reads.notComment, lowerNamed]
  simp only [reads.isToken, Bool.false_eq_true, if_false, reads.lower, ok_bind]
  rw [rest]
  rfl

theorem namedReads_nodes {chain : Chain (RawTree × Expr)}
    (separates : ∀ comma ∈ chain.separators, comma.isMark "," = true)
    (reads : ∀ item ∈ chain.items, Reads source item.1 item.2)
    (rest : NamedReads source children []) :
    NamedReads source ((chain.map Prod.fst).nodes id id ++ children)
      (chain.items.map Prod.snd) := by
  intro opener
  rw [lowerNamed_eq, ← List.append_nil (chain.items.map Prod.snd)]
  refine mapM_nodes (fun item member => ?_) (fun comma member => ?_) (fun opener => ?_) opener
  · have here := reads item member
    exact ⟨here.notComment, fun opener => ⟨by simp [here.isToken], here.lower opener⟩⟩
  · have punctuation := comma_punctuation (separates comma member)
    exact ⟨punctuation.2, leaf_unnamed punctuation⟩
  · rw [← lowerNamed_eq, rest]

def itemExprs (items : Option (Chain (RawTree × Expr))) : List Expr :=
  (items.map (·.items.map Prod.snd)).getD []

theorem namedReads_items {items : Option (Chain (RawTree × Expr))}
    (separates : ∀ chain ∈ items, ∀ comma ∈ chain.separators, comma.isMark "," = true)
    (reads : ∀ chain ∈ items, ∀ item ∈ chain.items, Reads source item.1 item.2)
    (rest : NamedReads source children []) :
    NamedReads source (itemNodes (items.map (·.map Prod.fst)) ++ children) (itemExprs items) := by
  cases items with
  | none => exact rest
  | some chain => exact namedReads_nodes (separates chain rfl) (reads chain rfl) rest

variable {opening closing : Token}

theorem reads_tuple {items : Option (Chain (RawTree × Expr))} (opens : opening.isMark "(" = true)
    (closes : closing.isMark ")" = true)
    (separates : ∀ chain ∈ items, ∀ comma ∈ chain.separators, comma.isMark "," = true)
    (reads : ∀ chain ∈ items, ∀ item ∈ chain.items, Reads source item.1 item.2) :
    Reads source (bracketedNode "tuple" opening (itemNodes (items.map (·.map Prod.fst))) closing)
      (.tuple (itemExprs items)) := by
  refine @reads_node source _ .tuple _ _ rfl rfl (by decide) fun span text field => ?_
  have inside := namedReads_mark (Token.punctuation_of_isMark opens (by decide))
    (namedReads_items separates reads
      (namedReads_mark (Token.punctuation_of_isMark closes (by decide)) namedReads_nil))
  rw [lowerExpr, inside none]
  rfl

theorem reads_singleton {comma : Token} {tree : RawTree} {e : Expr}
    (opens : opening.isMark "(" = true) (separates : comma.isMark "," = true)
    (closes : closing.isMark ")" = true) (reads : Reads source tree e) :
    Reads source (bracketedNode "tuple" opening [tree, comma.leaf] closing) (.tuple [e]) := by
  refine @reads_node source _ .tuple _ _ rfl rfl (by decide) fun span text field => ?_
  have inside := namedReads_mark (Token.punctuation_of_isMark opens (by decide))
    (namedReads_cons reads (namedReads_mark (comma_punctuation separates)
      (namedReads_mark (Token.punctuation_of_isMark closes (by decide)) namedReads_nil)))
  simp only [List.cons_append, List.nil_append]
  rw [lowerExpr, inside none]
  rfl

structure ReadsCallee (source : Source) (tree : RawTree) (callee : Name) : Prop where
  notComment : tree.isComment = false
  lowers : ∀ field opener,
    lowerCallee (convert source opener { tree with field := field }) = .ok callee

structure ReadsCall (source : Source) (tree : RawTree) (callee : Name) (args : List Expr) :
    Prop where
  sort : tree.treeKind = .call
  lowers : ∀ field opener, ∃ span text function children,
    convert source opener { tree with field := field } = ⟨.call, span, text, field, children⟩ ∧
      children.find? (·.fills "function") = some function ∧
      lowerCallee function = .ok callee ∧ argumentsAt children = some (.ok args)

def callParts (function : RawTree) (opening : Token) (arguments : Option (Chain RawTree))
    (closing : Token) : List RawTree :=
  [function.inField "function",
    (bracketedNode "argument_list" opening (itemNodes arguments) closing).inField "arguments"]

theorem readsCall_node {function : RawTree} {callee : Name}
    {arguments : Option (Chain (RawTree × Expr))} (opens : opening.isMark "(" = true)
    (closes : closing.isMark ")" = true) (callees : ReadsCallee source function callee)
    (separates : ∀ chain ∈ arguments, ∀ comma ∈ chain.separators, comma.isMark "," = true)
    (reads : ∀ chain ∈ arguments, ∀ item ∈ chain.items, Reads source item.1 item.2) :
    ReadsCall source (callNode function opening (arguments.map (·.map Prod.fst)) closing) callee
      (itemExprs arguments) := by
  refine ⟨rfl, fun field opener => ?_⟩
  have inside := namedReads_mark (Token.punctuation_of_isMark opens (by decide))
    (namedReads_items separates reads
      (namedReads_mark (Token.punctuation_of_isMark closes (by decide)) namedReads_nil))
  obtain ⟨span, text, converted⟩ := @convert_node source opener "call" .call
    (callParts function opening (arguments.map (·.map Prod.fst)) closing) field rfl rfl
  obtain ⟨opener', found⟩ : ∃ opener', (convertParts source none
      (callParts function opening (arguments.map (·.map Prod.fst)) closing)).find?
        (·.fills "function") = some (convert source opener' (function.inField "function")) :=
    find_parts source rfl (by simp [callees.notComment]) none
  refine ⟨span, text, _, _, converted, found, callees.lowers (some "function") opener', ?_⟩
  obtain ⟨opener'', found'⟩ : ∃ opener', (convertParts source none
      (callParts function opening (arguments.map (·.map Prod.fst)) closing)).find?
        (·.fills "arguments") = some (convert source opener' ((bracketedNode "argument_list" opening
          (itemNodes (arguments.map (·.map Prod.fst))) closing).inField "arguments")) :=
    find_parts source rfl rfl none
  obtain ⟨span', text', converted'⟩ := @convert_node source opener'' "argument_list" .argumentList
    (opening.leaf :: (itemNodes (arguments.map (·.map Prod.fst)) ++ [closing.leaf]))
    (some "arguments") rfl rfl
  rw [argumentsAt_eq, found', Option.map_some, bracketedNode, RawTree.inField, converted',
    lowerArguments, if_pos rfl, inside none]

theorem ReadsCall.reads {tree : RawTree} {callee : Name} {args : List Expr}
    (call : ReadsCall source tree callee args) : Reads source tree (callExpr callee args) := by
  refine ⟨by rw [call.sort]; decide, fun field opener => ?_⟩
  obtain ⟨span, text, function, children, converted, found, callee, arguments⟩ :=
    call.lowers field opener
  rw [converted, lowerExpr, childAt, found, arguments]
  simp [required, callee]

structure ReadsIndex (source : Source) (tree : RawTree) (e : Expr) : Prop where
  notComment : tree.isComment = false
  lowers : ∀ opener, (if (convert source opener (tree.inField "subscript")).kind = .slice
    then lowerSlice (convert source opener (tree.inField "subscript"))
    else lowerExpr (convert source opener (tree.inField "subscript"))) = .ok e

theorem Reads.readsIndex {tree : RawTree} {e : Expr} (reads : Reads source tree e) :
    ReadsIndex source tree e := by
  refine ⟨reads.notComment, fun opener => ?_⟩
  have sort := reads.sort
  simp only [List.mem_cons, not_or] at sort
  have notSlice : (convert source opener (tree.inField "subscript")).kind ≠ .slice := by
    rw [convert_kind]
    exact sort.2.2.1
  rw [if_neg notSlice, reads.inField]

def IndicesRead (source : Source) (children : List RawTree) (es : List Expr) : Prop :=
  ∀ opener, lowerIndices (convertParts source opener children) = .ok es

theorem indicesRead_nil : IndicesRead source [] [] := by
  intro opener
  rw [convertParts_nil, lowerIndices]

theorem indicesRead_other {tree : RawTree} (notComment : tree.isComment = false)
    (other : tree.field ≠ some "subscript") (rest : IndicesRead source children es) :
    IndicesRead source (tree :: children) es := by
  intro opener
  have fills : (convert source opener tree).fills "subscript" = false := by
    rw [convert_fills]
    simpa using other
  rw [convertParts_cons notComment, lowerIndices, fills]
  exact rest _

theorem indicesRead_nodes {chain : Chain (RawTree × Expr)}
    (separates : ∀ comma ∈ chain.separators, comma.isMark "," = true)
    (reads : ∀ item ∈ chain.items, ReadsIndex source item.1 item.2)
    (rest : IndicesRead source children []) :
    IndicesRead source ((chain.map Prod.fst).nodes (RawTree.inField "subscript") id ++ children)
      (chain.items.map Prod.snd) := by
  intro opener
  rw [lowerIndices_eq, ← List.append_nil (chain.items.map Prod.snd)]
  refine mapM_nodes (fun item member => ?_) (fun comma member => ?_) (fun opener => ?_) opener
  · have here := reads item member
    exact ⟨here.notComment, fun opener => ⟨convert_fills _, here.lowers opener⟩⟩
  · exact ⟨(comma_punctuation (separates comma member)).2, fun opener => fills_leaf _⟩
  · rw [← lowerIndices_eq, rest]

theorem reads_subscript {base : RawTree} {b index : Expr} {more : List Expr}
    {indices : Chain (RawTree × Expr)} (opens : opening.isMark "[" = true)
    (closes : closing.isMark "]" = true) (readsBase : Reads source base b)
    (separates : ∀ comma ∈ indices.separators, comma.isMark "," = true)
    (reads : ∀ item ∈ indices.items, ReadsIndex source item.1 item.2)
    (values : indices.items.map Prod.snd = index :: more) :
    Reads source (subscriptNode base opening (indices.map Prod.fst) closing)
      (.indexed b index more) := by
  refine @reads_node source _ .subscript _ _ rfl rfl (by decide) fun span text field => ?_
  have inside : IndicesRead source _ (index :: more) :=
    @indicesRead_other _ _ _ (base.inField "value") (by simp [readsBase.notComment])
      (by simp [RawTree.inField])
      (indicesRead_other (Token.punctuation_of_isMark opens (by decide)).2 (by rintro ⟨⟩)
        (values ▸ indicesRead_nodes separates reads
          (indicesRead_other (Token.punctuation_of_isMark closes (by decide)).2 (by rintro ⟨⟩)
            indicesRead_nil)))
  rw [lowerExpr, readsBase.exprAt_parts rfl, inside none]
  rfl

end Lists

def SliceParts.fillOptional (parts : SliceParts) (colons : Nat) (e : Option Expr) : SliceParts :=
  match e with
  | some e => parts.fill colons e
  | none => parts

section Slices

variable {refusal : LowerError} {colons : Nat} {parts : SliceParts} {rest : List RawTree}

theorem sliceParts_optional {part : Option (RawTree × Expr)} (few : colons < 3)
    (reads : ∀ item ∈ part, Reads source item.1 item.2) {result : SliceParts}
    (later : ∀ opener, sliceParts refusal colons
      (SliceParts.fillOptional parts colons (part.map Prod.snd)) (convertParts source opener rest) =
        .ok result) (opener : Option Nat) :
    sliceParts refusal colons parts
      (convertParts source opener ((part.map Prod.fst).toList ++ rest)) = .ok result := by
  cases part with
  | none => exact later opener
  | some item =>
      have reads := reads item rfl
      simp only [Option.map_some, Option.toList_some, List.cons_append, List.nil_append]
      rw [convertParts_cons reads.notComment, sliceParts]
      simp only [reads.isToken, Bool.false_eq_true, if_false, few, if_true, reads.lower, ok_bind]
      exact later _

theorem sliceParts_colon {colon : Token} (separates : colon.isMark ":" = true)
    (holds : colon.Holds source) {result : SliceParts}
    (later : ∀ opener, sliceParts refusal (colons + 1) parts (convertParts source opener rest) =
      .ok result) (opener : Option Nat) :
    sliceParts refusal colons parts (convertParts source opener (colon.leaf :: rest)) =
      .ok result := by
  have punctuation := Token.punctuation_of_isMark separates (by decide)
  have isToken : (convert source opener colon.leaf).isToken = true := by
    rw [convert_isToken, punctuation.1]
    rfl
  have text : (convert source opener colon.leaf).text = ":" :=
    @convert_leaf_text source colon ":" opener none separates holds
  rw [convertParts_cons punctuation.2, sliceParts, if_pos isToken, if_pos text]
  exact later _

theorem readsIndex_slice {start stop : Option (RawTree × Expr)} {colon : Token}
    {step : Option (Token × Option (RawTree × Expr))} (separates : colon.isMark ":" = true)
    (holds : colon.Holds source)
    (separates' : ∀ link ∈ step, link.1.isMark ":" = true ∧ link.1.Holds source)
    (first : ∀ item ∈ start, Reads source item.1 item.2)
    (second : ∀ item ∈ stop, Reads source item.1 item.2)
    (third : ∀ link ∈ step, ∀ item ∈ link.2, Reads source item.1 item.2) :
    ReadsIndex source
      (sliceNode (start.map Prod.fst) colon (stop.map Prod.fst)
        (step.map fun link => (link.1, link.2.map Prod.fst)))
      (.slice (start.map Prod.snd) (stop.map Prod.snd)
        (step.bind fun link => link.2.map Prod.snd)) := by
  refine ⟨rfl, fun opener => ?_⟩
  obtain ⟨children, childrenEq⟩ : ∃ children, children = (start.map Prod.fst).toList ++ colon.leaf ::
      ((stop.map Prod.fst).toList ++ ((step.map fun link => (link.1, link.2.map Prod.fst)).map
        fun link => link.1.leaf :: link.2.toList).getD []) := ⟨_, rfl⟩
  obtain ⟨span, text, converted⟩ :=
    @convert_node source opener "slice" .slice children (some "subscript") rfl rfl
  have converted' : convert source opener ((sliceNode (start.map Prod.fst) colon (stop.map Prod.fst)
      (step.map fun link => (link.1, link.2.map Prod.fst))).inField "subscript") =
      ⟨.slice, span, text, some "subscript", convertParts source none children⟩ := by
    rw [← converted, childrenEq]
    rfl
  rw [converted', if_pos rfl, lowerSlice, childrenEq]
  -- The parts are filled in from left to right, a colon moving on to the next.
  have parts (refusal : LowerError) : sliceParts refusal 0 .empty (convertParts source none
      ((start.map Prod.fst).toList ++ colon.leaf ::
        ((stop.map Prod.fst).toList ++ ((step.map fun link => (link.1, link.2.map Prod.fst)).map
          fun link => link.1.leaf :: link.2.toList).getD []))) =
      .ok ⟨start.map Prod.snd, stop.map Prod.snd, step.bind fun link => link.2.map Prod.snd⟩ := by
    refine sliceParts_optional (by decide) first (fun opener => ?_) none
    refine sliceParts_colon separates holds (fun opener => ?_) opener
    refine sliceParts_optional (by decide) second (fun opener => ?_) opener
    cases step with
    | none =>
        rw [Option.map_none, Option.map_none, Option.getD_none, convertParts_nil, sliceParts]
        cases start <;> cases stop <;> rfl
    | some link =>
        obtain ⟨colon', part⟩ := link
        obtain ⟨separates', holds'⟩ := separates' _ rfl
        refine sliceParts_colon separates' holds' (fun opener => ?_) opener
        have ends := @sliceParts_optional source refusal 2
          (SliceParts.fillOptional (SliceParts.fillOptional .empty 0 (start.map Prod.snd)) 1
            (stop.map Prod.snd)) [] part (by decide) (third _ rfl)
          ⟨start.map Prod.snd, stop.map Prod.snd, part.map Prod.snd⟩
          (fun opener => by
            rw [convertParts_nil, sliceParts]
            cases start <;> cases stop <;> cases part <;> rfl) opener
        simpa using ends
  rw [parts]
  rfl

end Slices

section Names

structure ReadsParts (source : Source) (tree : RawTree) (parts : List String) : Prop where
  sort : tree.treeKind = .identifier ∧ parts.length = 1 ∨
    tree.treeKind = .attributeAccess ∧ 2 ≤ parts.length
  lowers : ∀ field opener,
    attributeParts (convert source opener { tree with field := field }) = .ok parts

theorem readsParts_leaf {token : Token} (isName : token.kind = .name) (holds : token.Holds source) :
    ReadsParts source token.leaf [String.ofList token.text] := by
  have sorted : token.leaf.treeKind = .identifier := treeKind_leaf isName (by decide)
  refine ⟨.inl ⟨sorted, rfl⟩, fun field opener => ?_⟩
  obtain ⟨span, converted⟩ := @convert_leaf source token _ field opener holds sorted rfl
  rw [converted, attributeParts]

theorem ReadsParts.notComment {tree : RawTree} {parts : List String}
    (reads : ReadsParts source tree parts) : tree.isComment = false := by
  refine isComment_of_treeKind ?_ ?_ <;>
    rcases reads.sort with ⟨sort, _⟩ | ⟨sort, _⟩ <;> rw [sort] <;> decide

def attributed (object : RawTree) (dot name : Token) : List RawTree :=
  [object.inField "object", dot.leaf, name.leaf.inField "attribute"]

theorem readsParts_attribute {object : RawTree} {parts : List String} {dot name : Token}
    (isName : name.kind = .name) (holds : name.Holds source)
    (reads : ReadsParts source object parts) :
    ReadsParts source (attributeNode object dot name) (parts ++ [String.ofList name.text]) := by
  have sorted : name.leaf.treeKind = .identifier := treeKind_leaf isName (by decide)
  have notComment : name.leaf.isComment = false :=
    isComment_of_treeKind (by rw [sorted]; decide) (by rw [sorted]; decide)
  refine ⟨.inr ⟨rfl, ?_⟩, fun field opener => ?_⟩
  · rcases reads.sort with ⟨_, length⟩ | ⟨_, length⟩ <;> simp <;> omega
  · obtain ⟨span, text, converted⟩ := @convert_node source opener "attribute" .attributeAccess
      (attributed object dot name) field rfl rfl
    obtain ⟨opener', last⟩ : ∃ opener', ∀ kind span, childAt kind span "attribute"
        (convertParts source none (attributed object dot name)) =
          .ok (convert source opener' (name.leaf.inField "attribute")) :=
      childAt_parts source rfl (by simp [notComment]) none
    obtain ⟨opener'', inner⟩ : ∃ opener'',
        (convertParts source none (attributed object dot name)).find? (·.fills "object") =
          some (convert source opener'' (object.inField "object")) :=
      find_parts source rfl (by simp [reads.notComment]) none
    have parts : attributeParts (convert source opener'' (object.inField "object")) = .ok parts :=
      reads.lowers (some "object") opener''
    have lastText : (convert source opener' (name.leaf.inField "attribute")).text =
        String.ofList name.text := convert_text.trans holds
    have node : attributeNode object dot name = Grammar.node "attribute" (attributed object dot name) :=
      rfl
    rw [node, converted, attributeParts, last, ok_bind, objectParts_eq, inner, Option.map_some, parts,
      lastText]
    rfl

theorem ofParts_parts (name : DottedName) : DottedName.ofParts name.parts = .ok name := by
  have valid := name.parts_valid
  unfold DottedName.ofParts
  rw [dif_pos name.two_le]
  split
  next part invalid =>
    have found := List.find?_some invalid
    have member := List.mem_of_find?_eq_some invalid
    have valid' := List.all_eq_true.1 valid part member
    rw [valid'] at found
    cases found
  next => rfl

theorem lowerAttribute_of_parts {tree : Tree} {name : DottedName}
    (parts : attributeParts tree = .ok name.parts) : lowerAttribute tree = .ok name := by
  rw [lowerAttribute, parts, ok_bind, ofParts_parts]
  rfl

theorem ReadsParts.dotted {tree : RawTree} {name : DottedName}
    (reads : ReadsParts source tree name.parts) :
    Reads source tree (.dotted name) ∧ ReadsCallee source tree (.dotted name) := by
  have sort : tree.treeKind = .attributeAccess := by
    rcases reads.sort with ⟨_, length⟩ | ⟨sort, _⟩
    · have two := name.two_le
      omega
    · exact sort
  have kind (field : Option String) (opener : Option Nat) :
      (convert source opener { tree with field := field }).kind = .attributeAccess := by
    rw [convert_kind]
    exact sort
  refine ⟨⟨by rw [sort]; decide, fun field opener => ?_⟩, reads.notComment, fun field opener => ?_⟩
  · have lowered := lowerAttribute_of_parts (reads.lowers field opener)
    have kindHere := kind field opener
    revert lowered kindHere
    generalize convert source opener { tree with field := field } = converted
    obtain ⟨_, span, text, field', children⟩ := converted
    rintro lowered ⟨⟩
    rw [lowerExpr, lowered]
    rfl
  · rw [lowerCallee, kind]
    simp only [lowerAttribute_of_parts (reads.lowers field opener)]
    rfl

theorem readsCallee_name {token : Token} (isName : token.kind = .name)
    (holds : token.Holds source) :
    ReadsCallee source token.leaf (.symbol (.plain (String.ofList token.text))) := by
  have sorted : token.leaf.treeKind = .identifier := treeKind_leaf isName (by decide)
  refine ⟨isComment_of_treeKind (by rw [sorted]; decide) (by rw [sorted]; decide),
    fun field opener => ?_⟩
  obtain ⟨span, converted⟩ := @convert_leaf source token _ field opener holds sorted rfl
  rw [converted, lowerCallee]

end Names

end Grammar

end NumericPython
