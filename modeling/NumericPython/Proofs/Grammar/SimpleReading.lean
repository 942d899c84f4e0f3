import NumericPython.Directive
import NumericPython.Lowering.Stmt
import NumericPython.Proofs.Grammar.Series
import NumericPython.Proofs.Grammar.Statements
import NumericPython.Proofs.Lowering.Records

set_option autoImplicit false

namespace NumericPython

namespace Lowering

variable {α β : Type}

def Gives (action : LowerM α) (result : α) : Prop :=
  -- The result is the same whatever has been recorded before.
  ∃ entered, Enters action (.ok result) entered

theorem Gives.bind {action : LowerM α} {next : α → LowerM β} {result : α} {final : β}
    (first : Gives action result) (second : Gives (next result) final) :
    Gives (action >>= next) final := by
  obtain ⟨entered, enters⟩ := first
  obtain ⟨later, enters'⟩ := second
  exact ⟨entered ++ later, enters.bind_ok enters'⟩

theorem gives_lift {reading : Lowered α} {result : α} (same : reading = .ok result) :
    Gives (lift reading) result :=
  ⟨[], same ▸ enters_lift reading⟩

theorem gives_pure (result : α) : Gives (pure result) result :=
  gives_lift rfl

theorem gives_record (bindings : Bindings) : Gives (record bindings) () :=
  ⟨bindings, enters_record bindings⟩

end Lowering

namespace RawTree

variable {source : Source}

@[simp] theorem toPattern_isComment (tree : RawTree) :
    tree.toPattern.isComment = tree.isComment := by
  cases tree
  rw [toPattern]
  split
  · next same => simp [isComment, same]
  · split
    · next same => simp [isComment, same]
    · rfl

@[simp] theorem toPattern_inField (tree : RawTree) (field : Option String) :
    ({ tree.toPattern with field := field } : RawTree) =
      ({ tree with field := field } : RawTree).toPattern := by
  cases tree
  simp only [toPattern]
  split
  · rfl
  · split <;> rfl

@[simp] theorem toPattern_treeKind (tree : RawTree) : tree.toPattern.treeKind = tree.treeKind := by
  cases tree
  rw [toPattern]
  split
  · next same => simp only [treeKind, same]; rfl
  · split
    · next same => simp only [treeKind, same]; rfl
    · rfl

theorem convertAll_toPatterns {children : List RawTree}
    (same : ∀ child ∈ children, ∀ opener,
      convert source opener child.toPattern = convert source opener child) (keeps : Bool)
    (opener : Option Nat) :
    convertAll source keeps opener (toPatterns children) =
      convertAll source keeps opener children := by
  induction children generalizing opener with
  | nil => rfl
  | cons child rest ih =>
      have later := ih fun other member => same other (.tail _ member)
      have places : child.toPattern.start = child.start ∧ child.toPattern.stop = child.stop := by
        cases child
        rw [toPattern]
        split
        · exact ⟨rfl, rfl⟩
        · split <;> exact ⟨rfl, rfl⟩
      rw [toPatterns, convertAll_cons, convertAll_cons]
      simp only [toPattern_isComment, placed, same child (.head _), later, Layout.lastRow, places]

theorem convert_toPattern (tree : RawTree) : ∀ opener,
    convert source opener tree.toPattern = convert source opener tree := by
  induction tree using RawTree.induction with
  | step tree ih =>
      intro opener
      obtain ⟨kind, field, start, stop, isNamed, isError, isMissing, children⟩ := tree
      have inner (keeps : Bool) (opener : Option Nat) :=
        @convertAll_toPatterns source children ih keeps opener
      rw [toPattern]
      split
      · next same =>
        subst same
        rw [convert, convert, inner]
        rfl
      · split
        · next same =>
          subst same
          rw [convert, convert, inner]
          rfl
        · rfl

end RawTree

namespace Grammar

open RawTree Lowering

variable {source : Source}

theorem Reads.toPattern {tree : RawTree} {e : Expr} (reads : Reads source tree e) :
    Reads source tree.toPattern e := by
  refine ⟨by simpa using reads.sort, fun field opener => ?_⟩
  rw [toPattern_inField, convert_toPattern]
  exact reads.lowers field opener

/-- The node is a statement that is lowered to `s`, in whichever field it stands. -/
structure ReadsStmt (source : Source) (tree : RawTree) (s : Stmt) : Prop where
  sort : tree.treeKind ∉ [.token, .comment, .blankLine]
  lowers : ∀ field opener,
    Gives (lowerStmt Directive.frontEnd (convert source opener { tree with field := field })) s

theorem readsStmt_node {name : String} {kind : Kind} {children : List RawTree} {s : Stmt}
    (sorted : Kind.ofGrammar name = kind) (plain : isPlain kind = true)
    (sort : kind ∉ [.token, .comment, .blankLine])
    (lowers : ∀ span text field, Gives (lowerStmt Directive.frontEnd
      ⟨kind, span, text, field, convertParts source none children⟩) s) :
    ReadsStmt source (node name children) s := by
  refine ⟨?_, fun field opener => ?_⟩
  · rwa [treeKind_node sorted]
  · obtain ⟨span, text, converted⟩ := @convert_node source opener name kind children field sorted plain
    rw [converted]
    exact lowers span text field

def expressionKinds : List Kind :=
  [.identifier, .integer, .float, .string, .trueLiteral, .falseLiteral, .noneLiteral,
    .attributeAccess, .call, .subscript, .binaryOperator, .booleanOperator, .comparisonOperator,
    .unaryOperator, .notOperator, .parenthesized, .list, .tuple, .expressionList]

theorem kind_of_lowerExpr {tree : Tree} {e : Expr} (lowered : lowerExpr tree = .ok e) :
    tree.kind ∈ expressionKinds := by
  obtain ⟨kind, span, text, field, children⟩ := tree
  cases kind <;> first | (simp [expressionKinds]; done) | simp [lowerExpr] at lowered

theorem Reads.mem_expressionKinds {tree : RawTree} {e : Expr} (reads : Reads source tree e) :
    tree.treeKind ∈ expressionKinds := by
  have kind := kind_of_lowerExpr (reads.lower none)
  rwa [convert_kind] at kind

section Simple

variable {tree left right : RawTree} {a b e : Expr}

theorem call_of_isPrintCall {tree : Tree} (isPrint : isPrintCall tree = true)
    (lowered : lowerExpr tree = .ok e) : ∃ args, e = .call (.symbol (.plain "print")) args := by
  obtain ⟨kind, span, text, field, children⟩ := tree
  simp only [isPrintCall, Bool.and_eq_true, beq_iff_eq, Option.any_eq_true] at isPrint
  obtain ⟨rfl, callee, found, isName, name⟩ := isPrint
  have function : childAt .call span "function" children = .ok callee := by
    have found : children.find? (·.fills "function") = some callee := found
    simp [childAt, found, required]
  have readsCallee : lowerCallee callee = .ok (.symbol (.plain "print")) := by
    simp [lowerCallee, isName, name]
  rw [lowerExpr, function, ok_bind, readsCallee, ok_bind] at lowered
  rcases args : required .call span "arguments" (argumentsAt children) with cause | args
  · rw [args] at lowered
    cases lowered
  · rw [args, ok_bind] at lowered
    cases lowered
    exact ⟨_, rfl⟩

theorem readsStmt_expression (reads : Reads source tree e)
    (notPrint : ∀ args, e ≠ .call (.symbol (.plain "print")) args) :
    ReadsStmt source (node "expression_statement" [tree]) (.expression e) := by
  refine @readsStmt_node source _ .expressionStatement _ _ rfl rfl (by decide) fun span text field => ?_
  have lowered := reads.lower none
  have kind := kind_of_lowerExpr lowered
  have notCall : isPrintCall (convert source none tree) = false := by
    refine Bool.eq_false_iff.2 fun isPrint => ?_
    obtain ⟨args, same⟩ := call_of_isPrintCall isPrint lowered
    exact notPrint args same
  have notAssignment : (convert source none tree).kind ≠ .assignment ∧
      (convert source none tree).kind ≠ .augmentedAssignment := by
    constructor <;> (intro same; rw [same] at kind; revert kind; decide)
  rw [convertParts_cons reads.notComment, convertParts_nil, lowerStmt]
  refine gives_lift ?_
  simp only [lowerExpressionStatement, List.filter_cons, reads.isToken, Bool.not_false, if_true,
    List.filter_nil, notAssignment.1, notAssignment.2, notCall, if_false, Bool.false_eq_true, lowered]
  rfl

theorem identifier_of_lowerCallee {callee : Tree} {name : String}
    (lowered : lowerCallee callee = .ok (.symbol (.plain name))) :
    callee.kind = .identifier ∧ callee.text = name := by
  unfold lowerCallee at lowered
  split at lowered
  next isName => exact ⟨isName, by simpa [Symbol.plain] using lowered⟩
  next => cases result : lowerAttribute callee <;> simp [result, Except.map] at lowered
  next => cases lowered

theorem readsStmt_print {items : List Expr}
    (call : ReadsCall source tree (.symbol (.plain "print")) items) :
    ReadsStmt source (node "expression_statement" [tree]) (.print items) := by
  refine @readsStmt_node source _ .expressionStatement _ _ rfl rfl (by decide) fun span text field => ?_
  have callHere : ∃ span text function children,
      convert source none tree = ⟨.call, span, text, tree.field, children⟩ ∧
        children.find? (·.fills "function") = some function ∧
        lowerCallee function = .ok (.symbol (.plain "print")) ∧
        argumentsAt children = some (.ok items) := by
    cases tree
    exact call.lowers _ none
  obtain ⟨span', text', function, children, child, found, callee, arguments⟩ := callHere
  have isPrint : isPrintCall ⟨.call, span', text', tree.field, children⟩ = true := by
    have name := identifier_of_lowerCallee callee
    simp [isPrintCall, Tree.child?, found, name]
  rw [convertParts_cons call.reads.notComment, convertParts_nil, lowerStmt, child]
  refine gives_lift ?_
  simp only [lowerExpressionStatement, List.filter_cons, Tree.isToken, List.filter_nil]
  simp [isPrint, arguments, required]
  rfl

theorem lowerAssignment_eq {children : List Tree} {kind : Kind} {span : Span}
    (untyped : ∀ child ∈ children, child.fills "type" = false)
    (target : exprAt "left" children = some (.ok a)) (value : exprAt "right" children = some (.ok b)) :
    lowerAssignment kind span children = .ok (.assign a b) := by
  have none_typed : children.find? (·.fills "type") = none :=
    List.find?_eq_none.2 fun child member => by simp [untyped child member]
  simp [lowerAssignment, rejectField, none_typed, target, value, required]

theorem readsStmt_assignment {equals : Token} (reads : Reads source left a)
    (reads' : Reads source right b) :
    ReadsStmt source (assignmentNode "assignment" left equals.leaf right) (.assign a b) := by
  refine @readsStmt_node source _ .expressionStatement _ _ rfl rfl (by decide) fun span text field => ?_
  obtain ⟨span', text', converted⟩ := @convert_node source none "assignment" .assignment
    [left.toPattern.inField "left", equals.leaf, right.inField "right"] none rfl rfl
  have converted' : convert source none (node "assignment"
      [left.toPattern.inField "left", equals.leaf, right.inField "right"]) = _ := converted
  rw [convertParts_cons (by rfl), convertParts_nil, lowerStmt, converted']
  refine gives_lift ?_
  simp only [lowerExpressionStatement, List.filter_cons, Tree.isToken, List.filter_nil]
  exact lowerAssignment_eq (parts_free (by simp)) (reads.toPattern.exprAt_parts rfl none)
    (reads'.exprAt_parts rfl none)

theorem augmentedOperator_eq {operator : Tree} {op : BinaryOperator}
    (arithmetic : op.isArithmetic = true) (text : operator.text = op.text ++ "=") :
    augmentedOperator operator = .ok op := by
  have chars : (op.text ++ "=").toList = op.text.toList ++ ['='] := by simp
  have last : (op.text ++ "=").toList.getLast? = some '=' := by simp [chars]
  have front : String.ofList (op.text ++ "=").toList.dropLast = op.text := by
    rw [chars, List.dropLast_concat, String.ofList_toList]
  simp only [augmentedOperator, text, last, front, if_true, BinaryOperator.ofText?_text, arithmetic]

theorem lowerAugmented_eq {children : List Tree} {kind : Kind} {span : Span} {operator : Tree}
    {op : BinaryOperator} (operatorAt : childAt kind span "operator" children = .ok operator)
    (augments : augmentedOperator operator = .ok op)
    (target : exprAt "left" children = some (.ok a)) (value : exprAt "right" children = some (.ok b)) :
    lowerAugmented kind span children = .ok (.augAssign a op b) := by
  simp [lowerAugmented, operatorAt, augments, target, value, required]

theorem readsStmt_augmented {operator : Token} {op : BinaryOperator}
    (arithmetic : op.isArithmetic = true) (assigns : operator.isMark (op.text ++ "=") = true)
    (holds : operator.Holds source) (reads : Reads source left a) (reads' : Reads source right b) :
    ReadsStmt source (assignmentNode "augmented_assignment" left (operator.leaf.inField "operator")
      right) (.augAssign a op b) := by
  refine @readsStmt_node source _ .expressionStatement _ _ rfl rfl (by decide) fun span text field => ?_
  have punctuation := Token.punctuation_of_isMark assigns (by cases op <;> decide)
  obtain ⟨span', text', converted⟩ := @convert_node source none "augmented_assignment"
    .augmentedAssignment [left.toPattern.inField "left", operator.leaf.inField "operator",
      right.inField "right"] none rfl rfl
  have converted' : convert source none (node "augmented_assignment"
      [left.toPattern.inField "left", operator.leaf.inField "operator", right.inField "right"]) = _ :=
    converted
  obtain ⟨opener, found⟩ : ∃ opener, ∀ kind span, childAt kind span "operator"
      (convertParts source none [left.toPattern.inField "left", operator.leaf.inField "operator",
        right.inField "right"]) = .ok (convert source opener (operator.leaf.inField "operator")) :=
    childAt_parts source rfl (by simp [punctuation.2]) none
  have mark : (convert source opener (operator.leaf.inField "operator")).text = op.text ++ "=" :=
    convert_leaf_text assigns holds
  rw [convertParts_cons (by rfl), convertParts_nil, lowerStmt, converted']
  refine gives_lift ?_
  simp only [lowerExpressionStatement, List.filter_cons, Tree.isToken, List.filter_nil]
  exact lowerAugmented_eq (found _ _) (augmentedOperator_eq arithmetic mark)
    (reads.toPattern.exprAt_parts rfl none) (reads'.exprAt_parts rfl none)

theorem readsStmt_return {keyword : Token} (returns : keyword.isMark "return" = true)
    (reads : Reads source tree e) :
    ReadsStmt source (node "return_statement" [keyword.leaf, tree]) (.returnValue e) := by
  refine @readsStmt_node source _ .returnStatement _ _ rfl rfl (by decide) fun span text field => ?_
  have punctuation := Token.punctuation_of_isMark returns (by decide)
  rw [convertParts_cons punctuation.2, convertParts_cons reads.notComment, convertParts_nil, lowerStmt]
  refine gives_lift ?_
  simp only [lowerReturn, firstNamed, isToken_leaf punctuation, if_true, reads.isToken,
    Bool.false_eq_true, if_false, reads.lower]
  rfl

theorem readsStmt_pass (source : Source) (keyword : Token) :
    ReadsStmt source (node "pass_statement" [keyword.leaf]) .pass := by
  refine @readsStmt_node source _ .passStatement _ _ rfl rfl (by decide) fun span text field => ?_
  rw [lowerStmt]
  exact gives_pure _

end Simple

section Names

structure ReadsName (source : Source) (name : String) (tree : RawTree) : Prop where
  sort : tree.treeKind = .identifier
  text : source.slice tree.start tree.stop = name

theorem readsName_leaf {token : Token} (isName : token.kind = .name) (holds : token.Holds source) :
    ReadsName source (String.ofList token.text) token.leaf :=
  ⟨treeKind_leaf isName (by decide), holds⟩

theorem ReadsName.notComment {name : String} {tree : RawTree} (reads : ReadsName source name tree) :
    tree.isComment = false :=
  isComment_of_treeKind (by rw [reads.sort]; decide) (by rw [reads.sort]; decide)

theorem ReadsName.convert_text {name : String} {tree : RawTree} (reads : ReadsName source name tree)
    (field : Option String) (opener : Option Nat) :
    (convert source opener { tree with field := field }).text = name := by
  rw [RawTree.convert_text]
  exact reads.text

structure ReadsPath (source : Source) (name : Name) (tree : RawTree) : Prop where
  sort : tree.treeKind = .dottedName
  lowers : ∀ field opener,
    lowerDottedName (convert source opener { tree with field := field }) = .ok name

theorem ReadsPath.notComment {name : Name} {tree : RawTree} (reads : ReadsPath source name tree) :
    tree.isComment = false :=
  isComment_of_treeKind (by rw [reads.sort]; decide) (by rw [reads.sort]; decide)

theorem readsPath_node {chain : Chain (RawTree × String)} {name : Name}
    (separates : ∀ token ∈ chain.separators, token.isMark "." = true)
    (reads : ∀ item ∈ chain.items, ReadsName source item.2 item.1)
    (isName : Name.ofParts (chain.items.map Prod.snd) = .ok name) :
    ReadsPath source name (node "dotted_name" ((chain.map Prod.fst).nodes id id)) := by
  refine ⟨rfl, fun field opener => ?_⟩
  obtain ⟨span, text, converted⟩ := @convert_node source opener "dotted_name" .dottedName
    ((chain.map Prod.fst).nodes id id) field rfl rfl
  have parts : dottedParts (convertParts source none ((chain.map Prod.fst).nodes id id)) =
      .ok (chain.items.map Prod.snd) := by
    rw [dottedParts_eq]
    refine mapM_nodes_alone (fun item member => ?_) (fun token member => ?_) none
    · have here := reads item member
      have kind (opener : Option Nat) : (convert source opener item.1).kind = .identifier := by
        rw [convert_kind, here.sort]
      refine ⟨here.notComment, fun opener => ⟨?_, ?_⟩⟩
      · simp [convert_isToken, here.sort]
      · simp [dottedPart, kind, RawTree.convert_text, here.text]
    · have punctuation := Token.punctuation_of_isMark (separates token member) (by decide)
      exact ⟨punctuation.2, leaf_unnamed punctuation⟩
  rw [converted, lowerDottedName, parts, ok_bind, isName]
  rfl

structure ReadsTarget (source : Source) (target : ImportTarget) (tree : RawTree) : Prop where
  notComment : tree.isComment = false
  lowers : ∀ field opener,
    lowerTarget (convert source opener { tree with field := field }) = .ok target

theorem ReadsPath.target {name : Name} {tree : RawTree} (reads : ReadsPath source name tree) :
    ReadsTarget source ⟨name, none⟩ tree := by
  refine ⟨reads.notComment, fun field opener => ?_⟩
  have kind : (convert source opener { tree with field := field }).kind = .dottedName := by
    rw [convert_kind]
    exact reads.sort
  rw [lowerTarget, kind]
  simp only [reads.lowers]
  rfl

theorem readsTarget_renamed {path : RawTree} {keyword name : Token} {target : Name}
    (isName : name.kind = .name) (holds : name.Holds source)
    (reads : ReadsPath source target path) :
    ReadsTarget source ⟨target, some (String.ofList name.text)⟩ (node "aliased_import"
      [path.inField "name", keyword.leaf, name.leaf.inField "alias"]) := by
  refine ⟨rfl, fun field opener => ?_⟩
  obtain ⟨span, text, converted⟩ := @convert_node source opener "aliased_import" .aliasedImport
    [path.inField "name", keyword.leaf, name.leaf.inField "alias"] field rfl rfl
  have readsAlias := readsName_leaf isName holds
  obtain ⟨opener', pathHere⟩ : ∃ opener', ∀ kind span, childAt kind span "name"
      (convertParts source none [path.inField "name", keyword.leaf, name.leaf.inField "alias"]) =
        .ok (convert source opener' (path.inField "name")) :=
    childAt_parts source rfl (by simp [reads.notComment]) none
  obtain ⟨opener'', aliasHere⟩ : ∃ opener'', ∀ kind span, childAt kind span "alias"
      (convertParts source none [path.inField "name", keyword.leaf, name.leaf.inField "alias"]) =
        .ok (convert source opener'' (name.leaf.inField "alias")) :=
    childAt_parts source rfl (by simp [readsAlias.notComment]) none
  have pathLowers : lowerDottedName (convert source opener' (path.inField "name")) = .ok target :=
    reads.lowers (some "name") opener'
  have aliasText : (convert source opener'' (name.leaf.inField "alias")).text =
      String.ofList name.text := readsAlias.convert_text (some "alias") opener''
  simp [converted, lowerTarget, pathHere, pathLowers, aliasHere, aliasText]

theorem lowerTargets_nodes {chain : Chain (RawTree × ImportTarget)}
    (separates : ∀ token ∈ chain.separators, token.isMark "," = true)
    (reads : ∀ item ∈ chain.items, ReadsTarget source item.2 item.1) (opener : Option Nat) :
    ((convertParts source opener ((chain.map Prod.fst).nodes (RawTree.inField "name") id)).filter
      (·.fills "name")).mapM lowerTarget = .ok (chain.items.map Prod.snd) := by
  refine mapM_nodes_alone (fun item member => ?_) (fun token member => ?_) opener
  · have here := reads item member
    exact ⟨by simp [here.notComment], fun opener =>
      ⟨convert_fills "name", here.lowers (some "name") opener⟩⟩
  · exact ⟨(comma_punctuation (separates token member)).2, fun opener => convert_fills "name"⟩

theorem readsStmt_import {keyword : Token} {chain : Chain (RawTree × ImportTarget)}
    {target : ImportTarget} {more : List ImportTarget} (imports : keyword.isMark "import" = true)
    (separates : ∀ token ∈ chain.separators, token.isMark "," = true)
    (reads : ∀ item ∈ chain.items, ReadsTarget source item.2 item.1)
    (targets : chain.items.map Prod.snd = target :: more) :
    ReadsStmt source (node "import_statement"
        (keyword.leaf :: (chain.map Prod.fst).nodes (RawTree.inField "name") id))
      (.importNames ⟨none, target, more⟩) := by
  refine @readsStmt_node source _ .importStatement _ _ rfl rfl (by decide) fun span text field => ?_
  have punctuation := Token.punctuation_of_isMark imports (by decide)
  rw [lowerStmt]
  refine gives_lift ?_
  rw [lowerImport, lowerTargets, Tree.childrenBy, convertParts_cons punctuation.2, List.filter_cons,
    if_neg (by simp [fills_leaf]), lowerTargets_nodes separates reads, targets]
  rfl

theorem readsStmt_importFrom {keyword keyword' : Token} {path : RawTree} {name : Name}
    {chain : Chain (RawTree × ImportTarget)} {target : ImportTarget} {more : List ImportTarget}
    (starts : keyword.isMark "from" = true) (readsPath : ReadsPath source name path)
    (imports : keyword'.isMark "import" = true)
    (separates : ∀ token ∈ chain.separators, token.isMark "," = true)
    (reads : ∀ item ∈ chain.items, ReadsTarget source item.2 item.1)
    (targets : chain.items.map Prod.snd = target :: more) :
    ReadsStmt source (node "import_from_statement"
        (keyword.leaf :: path.inField "module_name" :: keyword'.leaf ::
          (chain.map Prod.fst).nodes (RawTree.inField "name") id))
      (.importNames ⟨some name, target, more⟩) := by
  refine @readsStmt_node source _ .importFromStatement _ _ rfl rfl (by decide) fun span text field => ?_
  have punctuation := Token.punctuation_of_isMark starts (by decide)
  have punctuation' := Token.punctuation_of_isMark imports (by decide)
  obtain ⟨children, childrenEq⟩ : ∃ children, children = convertParts source none
      (keyword.leaf :: path.inField "module_name" :: keyword'.leaf ::
        (chain.map Prod.fst).nodes (RawTree.inField "name") id) := ⟨_, rfl⟩
  -- Every child is a token or has a field, so that none of them is a wildcard.
  have known : ∀ tree ∈ children, tree.isToken = false → tree.field.isNone = false := by
    intro tree member named
    rw [childrenEq] at member
    obtain ⟨child, inside, opener, rfl⟩ := mem_convertParts member
    rw [convert_isToken] at named
    rw [convert_field]
    have token {mark : Token} (punctuation : mark.IsPunctuation) (same : child = mark.leaf) :
        False := by
      rw [same, punctuation.1] at named
      cases named
    rcases List.mem_cons.1 inside with same | inside
    · exact (token punctuation same).elim
    rcases List.mem_cons.1 inside with rfl | inside
    · rfl
    rcases List.mem_cons.1 inside with same | inside
    · exact (token punctuation' same).elim
    rcases Chain.mem_nodes inside with ⟨inner, _, rfl⟩ | ⟨mark, inside, same⟩
    · rfl
    · rw [Chain.separators_map] at inside
      exact (token (comma_punctuation (separates mark inside)) same).elim
  obtain ⟨opener, pathHere⟩ : ∃ opener, ∀ kind span, childAt kind span "module_name" children =
      .ok (convert source opener (path.inField "module_name")) := by
    rw [childrenEq]
    exact childAt_parts source rfl (by simp [readsPath.notComment]) none
  have kind : (convert source opener (path.inField "module_name")).kind = .dottedName := by
    rw [convert_kind]
    exact readsPath.sort
  have lowered : lowerDottedName (convert source opener (path.inField "module_name")) = .ok name :=
    readsPath.lowers (some "module_name") opener
  have names : (children.filter (·.fills "name")).mapM lowerTarget = .ok (target :: more) := by
    have pathFills (opener : Option Nat) :
        (convert source opener (path.inField "module_name")).fills "name" = false :=
      convert_fills "name"
    rw [childrenEq, convertParts_cons punctuation.2, convertParts_cons (by simp [readsPath.notComment]),
      convertParts_cons punctuation'.2]
    simp only [List.filter_cons, fills_leaf, pathFills, Bool.false_eq_true, if_false]
    rw [lowerTargets_nodes separates reads, targets]
  have noWildcard (tree : Tree) (same : tree.children = children) :
      tree.namedChildren.find? (·.field.isNone) = none := by
    refine List.find?_eq_none.2 fun child member => ?_
    rw [Tree.namedChildren, same, List.mem_filter] at member
    simp [known child member.1 (by simpa using member.2)]
  rw [← childrenEq, lowerStmt]
  have parts : lowerImportFrom ⟨.importFromStatement, span, text, field, children⟩ =
      .ok (name, target :: more) := by
    simp only [lowerImportFrom, pathHere, ok_bind, kind, if_true,
      noWildcard ⟨.importFromStatement, span, text, field, children⟩ rfl, lowered, lowerTargets,
      Tree.childrenBy, names]
  exact (gives_lift parts).bind ((gives_record _).bind ((gives_lift rfl).bind (gives_pure _)))

end Names

end Grammar

end NumericPython
