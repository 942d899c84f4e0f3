import NumericPython.Proofs.Ast.Table
import NumericPython.Proofs.Grammar.SimpleReading
import NumericPython.Proofs.Layout.Bodies
import NumericPython.Proofs.Lists

set_option autoImplicit false

namespace NumericPython

namespace Grammar

open RawTree Lowering Layout

variable {source : Source}

section Fields

variable {token : Token} {tree : RawTree} {opener : Option Nat}

theorem isInert_leaf (punctuation : token.IsPunctuation) : IsInert token.leaf :=
  ⟨punctuation.2, by rw [punctuation.1]; decide⟩

theorem Reads.isInert {e : Expr} (reads : Reads source tree e) (name : String) :
    IsInert (tree.inField name) := by
  refine ⟨reads.notComment, fun member => ?_⟩
  have kind : tree.treeKind ∈ [.comment, .block, .functionDefinition, .classDefinition] := member
  have value := reads.mem_expressionKinds
  have apart : ∀ sort ∈ expressionKinds,
      sort ∉ [Kind.comment, .block, .functionDefinition, .classDefinition] := by decide
  exact apart _ value kind

theorem ReadsName.isInert {name : String} (reads : ReadsName source name tree) (field : String) :
    IsInert (tree.inField field) := by
  refine ⟨reads.notComment, fun member => ?_⟩
  have kind : tree.treeKind ∈ [.comment, .block, .functionDefinition, .classDefinition] := member
  rw [reads.sort] at kind
  revert kind
  decide

end Fields

section Bodies

/-- The comments in front of a block and its nodes make a body with the given meaning, if the header
ends on the given row. -/
structure ReadsBody (source : Source) (row : Nat) (comments trees : List RawTree)
    (meaning : List Tree → Prop) : Prop where
  areComments : ∀ tree ∈ comments, tree.isComment = true ∧ tree.treeKind = .comment
  lowers : meaning (insertComments (convertKept source (some row) comments)
    (withBlankLines source none (some (row + 1)) (convertAll source true none trees)))

def Runs (body : List Stmt) (layout : List Tree) : Prop :=
  Gives (lowerStmts Directive.frontEnd layout) body

theorem convert_suite {name bodyField : String} {kind : Kind} {field : Option String}
    {header front comments trees others : List RawTree} {colon : Token}
    {meaning : List Tree → Prop} (sorted : Kind.ofGrammar name = kind)
    (compound : kind.isCompound = true) (whole : header = front ++ [colon.leaf])
    (inert : ∀ tree ∈ front, IsInert tree) (ends : colon.isMark ":" = true)
    (inert' : ∀ tree ∈ others, IsInert tree)
    (body : ReadsBody source (source.rowAt colon.leaf.stop) comments trees meaning)
    (opener : Option Nat) :
    ∃ span text span' text' opener' layout, meaning layout ∧
      convert source opener { node name (header ++
          (comments ++ (node "block" trees).inField bodyField :: others)) with field := field } =
        ⟨kind, span, text, field, convertParts source none header ++
          ⟨.block, span', text', some bodyField, layout⟩ :: convertParts source opener' others⟩ := by
  have punctuation := Token.punctuation_of_isMark ends (by decide)
  have inertHeader : ∀ tree ∈ header, IsInert tree := by
    intro tree member
    rw [whole] at member
    rcases List.mem_append.1 member with member | member
    · exact inert tree member
    · rw [List.mem_singleton.1 member]
      exact isInert_leaf punctuation
  have opens : openerBehind source none header = some (source.rowAt colon.leaf.stop) := by
    rw [whole]
    exact openerBehind_concat punctuation.2 front
  obtain ⟨span, text, span', text', opener', converted⟩ := @convert_clause source opener name
    bodyField kind field header comments trees others sorted compound inertHeader
    body.areComments inert' _ opens
  exact ⟨span, text, span', text', opener', _, body.lowers, converted⟩

end Bodies

section Conditions

variable {keyword colon : Token} {value : RawTree} {e : Expr} {comments trees : List RawTree}
  {body : List Stmt}

def conditionHeader (keyword : Token) (value : RawTree) (colon : Token) : List RawTree :=
  [keyword.leaf, value.inField "condition", colon.leaf]

theorem inert_condition (begins : keyword.IsPunctuation) (reads : Reads source value e) :
    ∀ tree ∈ [keyword.leaf, value.inField "condition"], IsInert tree := by
  intro tree member
  rcases List.mem_cons.1 member with rfl | member
  · exact isInert_leaf begins
  · rw [List.mem_singleton.1 member]
    exact reads.isInert _

theorem condition_parts (reads : Reads source value e) {bodyField : String}
    (other : bodyField ≠ "condition") (rest : List Tree) :
    exprAt "condition" (convertParts source none (conditionHeader keyword value colon) ++ rest) =
        some (.ok e) ∧
      ∀ tree ∈ convertParts source none (conditionHeader keyword value colon),
        tree.fills bodyField = false :=
  ⟨exprAt_append (reads.exprAt_parts rfl none) rest,
    parts_free (by simp [conditionHeader, other.symm])⟩

theorem blockAt_append {frontEnd : FrontEnd} {field : String} {front : List Tree}
    (passed : ∀ tree ∈ front, tree.fills field = false) (span : Span) (text : String)
    (layout rest : List Tree) :
    blockAt frontEnd field (front ++ ⟨.block, span, text, some field, layout⟩ :: rest) =
      some (lowerStmts frontEnd layout) := by
  rw [blockAt_eq, find_behind passed (by simp [Tree.fills]), Option.map_some, lowerBlock, if_pos rfl]

theorem rejectField_suite {construct field : String} {header : List RawTree} {block : Tree}
    (free : ∀ child ∈ header, child.field ≠ some field) (other : block.fills field = false) :
    rejectField construct field (convertParts source none header ++ [block]) = .ok () := by
  have none_found : (convertParts source none header ++ [block]).find? (·.fills field) = none := by
    refine List.find?_eq_none.2 fun tree member => ?_
    rcases List.mem_append.1 member with member | member
    · simp [parts_free free tree member]
    · simp [List.mem_singleton.1 member, other]
  rw [rejectField, none_found]

theorem readsStmt_while (begins : keyword.isMark "while" = true) (reads : Reads source value e)
    (ends : colon.isMark ":" = true)
    (runs : ReadsBody source (source.rowAt colon.leaf.stop) comments trees (Runs body)) :
    ReadsStmt source (node "while_statement" (conditionHeader keyword value colon ++
      (comments ++ [(node "block" trees).inField "body"]))) (.whileLoop e body) := by
  have punctuation := Token.punctuation_of_isMark begins (by decide)
  have kind (children : List RawTree) :
      (node "while_statement" children).treeKind = .whileStatement := rfl
  refine ⟨by rw [kind]; decide, fun field opener => ?_⟩
  obtain ⟨span, text, span', text', opener', layout, lowers, converted⟩ := @convert_suite source
    "while_statement" "body" .whileStatement field (conditionHeader keyword value colon) _ comments
    trees [] colon _ rfl rfl rfl
    (inert_condition punctuation reads) ends (by simp) runs opener
  obtain ⟨condition, others⟩ := @condition_parts source keyword colon value e reads
    "body" (by decide) [⟨.block, span', text', some "body", layout⟩]
  rw [converted, convertParts_nil, lowerStmt, condition, blockAt_append others, required]
  exact (gives_lift (rejectField_suite (by simp [conditionHeader]) rfl)).bind
    ((gives_lift rfl).bind (lowers.bind (gives_pure _)))

structure ReadsAlternative (source : Source) (tree : RawTree)
    (branch : Option Expr × List Stmt) : Prop where
  inert : IsInert tree
  fills : tree.field = some "alternative"
  lowers : ∀ opener,
    Gives (lowerAlternative Directive.frontEnd (convert source opener tree)) branch

theorem readsAlternative_elif (begins : keyword.isMark "elif" = true) (reads : Reads source value e)
    (ends : colon.isMark ":" = true)
    (runs : ReadsBody source (source.rowAt colon.leaf.stop) comments trees (Runs body)) :
    ReadsAlternative source ((node "elif_clause" (conditionHeader keyword value colon ++
      (comments ++ [(node "block" trees).inField "consequence"]))).inField "alternative")
        (some e, body) := by
  have punctuation := Token.punctuation_of_isMark begins (by decide)
  have kind (children : List RawTree) :
      ((node "elif_clause" children).inField "alternative").treeKind = .elifClause := rfl
  refine ⟨⟨rfl, by rw [kind]; decide⟩, rfl, fun opener => ?_⟩
  obtain ⟨span, text, span', text', opener', layout, lowers, converted⟩ := @convert_suite source
    "elif_clause" "consequence" .elifClause (some "alternative")
    (conditionHeader keyword value colon) _ comments trees [] colon _ rfl rfl rfl
    (inert_condition punctuation reads) ends (by simp) runs opener
  obtain ⟨condition, others⟩ := @condition_parts source keyword colon value e reads
    "consequence" (by decide) [⟨.block, span', text', some "consequence", layout⟩]
  rw [RawTree.inField, converted, convertParts_nil, lowerAlternative, condition,
    blockAt_append others, required]
  exact (gives_lift rfl).bind (lowers.bind (gives_pure _))

theorem readsAlternative_else (begins : keyword.isMark "else" = true)
    (ends : colon.isMark ":" = true)
    (runs : ReadsBody source (source.rowAt colon.leaf.stop) comments trees (Runs body)) :
    ReadsAlternative source ((node "else_clause" ([keyword.leaf, colon.leaf] ++
      (comments ++ [(node "block" trees).inField "body"]))).inField "alternative")
        (none, body) := by
  have punctuation := Token.punctuation_of_isMark begins (by decide)
  have punctuation' := Token.punctuation_of_isMark ends (by decide)
  have kind (children : List RawTree) :
      ((node "else_clause" children).inField "alternative").treeKind = .elseClause := rfl
  refine ⟨⟨rfl, by rw [kind]; decide⟩, rfl, fun opener => ?_⟩
  obtain ⟨span, text, span', text', opener', layout, lowers, converted⟩ := @convert_suite source
    "else_clause" "body" .elseClause (some "alternative") [keyword.leaf, colon.leaf] [keyword.leaf]
    comments trees [] colon _ rfl rfl rfl
    (fun tree member => List.mem_singleton.1 member ▸ isInert_leaf punctuation) ends (by simp) runs
    opener
  have others : ∀ tree ∈ convertParts source none [keyword.leaf, colon.leaf],
      tree.fills "body" = false := by
    rw [convertParts_cons punctuation.2, convertParts_cons punctuation'.2, convertParts_nil]
    simp [fills_leaf]
  rw [RawTree.inField, converted, convertParts_nil, lowerAlternative, blockAt_append others]
  exact lowers.bind (gives_pure _)

theorem gives_alternatives {others : List RawTree} {branches : List (Option Expr × List Stmt)}
    (reads : List.Forall₂ (ReadsAlternative source) others branches) (opener : Option Nat) :
    Gives (lowerAlternatives Directive.frontEnd (convertParts source opener others)) branches := by
  induction reads generalizing opener with
  | nil =>
      rw [convertParts_nil, lowerAlternatives]
      exact gives_pure _
  | @cons tree branch others branches first later ih =>
      have fills : (convert source opener tree).fills "alternative" = true := by
        rw [convert_fills, first.fills]
        rfl
      rw [convertParts_cons first.inert.1, lowerAlternatives, if_pos fills]
      exact (first.lowers opener).bind ((ih _).bind (gives_pure _))

theorem lowerAlternatives_append {frontEnd : FrontEnd} {front rest : List Tree}
    (passed : ∀ tree ∈ front, tree.fills "alternative" = false) :
    lowerAlternatives frontEnd (front ++ rest) = lowerAlternatives frontEnd rest := by
  have none_kept : front.filter (·.fills "alternative") = [] :=
    List.filter_eq_nil_iff.2 fun tree member => by simp [passed tree member]
  rw [lowerAlternatives_eq, lowerAlternatives_eq, List.filter_append, none_kept, List.nil_append]

def furtherBranches (rest : List Branch) (otherwise : Option (List Stmt)) :
    List (Option Expr × List Stmt) :=
  rest.map (fun branch => (some branch.condition, branch.body)) ++
    (otherwise.map fun body => (none, body)).toList

theorem splitBranches_further (rest : List Branch) (otherwise : Option (List Stmt)) :
    Stmt.splitBranches (furtherBranches rest otherwise) = (rest, otherwise) := by
  induction rest with
  | nil => cases otherwise <;> rfl
  | cons branch rest ih =>
      have split : Stmt.splitBranches (furtherBranches (branch :: rest) otherwise) =
          (⟨branch.condition, branch.body⟩ ::
            (Stmt.splitBranches (furtherBranches rest otherwise)).1,
            (Stmt.splitBranches (furtherBranches rest otherwise)).2) := rfl
      rw [split, ih]
      cases branch
      rfl

theorem ofBranches_further (first : Branch) (rest : List Branch) (otherwise : Option (List Stmt)) :
    Stmt.ofBranches ((some first.condition, first.body) :: furtherBranches rest otherwise) =
      .ok (.conditional first rest otherwise) := by
  have built : Stmt.ofBranches.build
      ((some first.condition, first.body) :: furtherBranches rest otherwise) =
        .ok (.conditional first rest otherwise) := by
    rw [Stmt.ofBranches.build, Stmt.splitBranches, splitBranches_further]
    cases first
    rfl
  have parts : (some first.condition, first.body) :: furtherBranches rest otherwise =
      (first :: rest).map (fun branch => (some branch.condition, branch.body)) ++
        (otherwise.map fun body => (none, body)).toList := rfl
  rw [Stmt.ofBranches]
  split
  next position found =>
    -- Only the last branch lacks a condition.
    rw [if_neg, built]
    intro early
    obtain ⟨inside, lacks, _⟩ := List.findIdx?_eq_some_iff_getElem.1 found
    have conditional : position < (first :: rest).length := by
      have few : (otherwise.map fun body => ((none : Option Expr), body)).toList.length ≤ 1 := by
        cases otherwise <;> simp
      rw [parts, List.length_append, List.length_map] at early
      omega
    simp only [parts] at lacks
    rw [List.getElem_append_left (by simpa using conditional), List.getElem_map] at lacks
    cases lacks
  next => exact built

theorem readsStmt_if {others : List RawTree} {rest : List Branch}
    {otherwise : Option (List Stmt)} (begins : keyword.isMark "if" = true)
    (reads : Reads source value e) (ends : colon.isMark ":" = true)
    (runs : ReadsBody source (source.rowAt colon.leaf.stop) comments trees (Runs body))
    (further : List.Forall₂ (ReadsAlternative source) others (furtherBranches rest otherwise)) :
    ReadsStmt source (node "if_statement" (conditionHeader keyword value colon ++
      (comments ++ (node "block" trees).inField "consequence" :: others)))
        (.conditional ⟨e, body⟩ rest otherwise) := by
  have punctuation := Token.punctuation_of_isMark begins (by decide)
  have kind (children : List RawTree) : (node "if_statement" children).treeKind = .ifStatement := rfl
  have inert : ∀ tree ∈ others, IsInert tree := by
    intro tree member
    obtain ⟨branch, _, alternative⟩ := exists_right further member
    exact alternative.inert
  refine ⟨by rw [kind]; decide, fun field opener => ?_⟩
  obtain ⟨span, text, span', text', opener', layout, lowers, converted⟩ := @convert_suite source
    "if_statement" "consequence" .ifStatement field (conditionHeader keyword value colon) _ comments
    trees others colon _ rfl rfl rfl (inert_condition punctuation reads) ends inert runs opener
  obtain ⟨condition, passed⟩ := @condition_parts source keyword colon value e reads
    "consequence" (by decide) (⟨.block, span', text', some "consequence", layout⟩ ::
      convertParts source opener' others)
  obtain ⟨_, passed'⟩ := @condition_parts source keyword colon value e reads
    "alternative" (by decide) []
  have alternatives : lowerAlternatives Directive.frontEnd
      (convertParts source none (conditionHeader keyword value colon) ++
        ⟨.block, span', text', some "consequence", layout⟩ :: convertParts source opener' others) =
      lowerAlternatives Directive.frontEnd (convertParts source opener' others) := by
    rw [lowerAlternatives_append passed', lowerAlternatives]
    rfl
  rw [converted, lowerStmt, condition, blockAt_append passed, alternatives, required]
  refine (gives_lift rfl).bind (lowers.bind ((gives_alternatives further _).bind (gives_lift ?_)))
  rw [ofBranches_further ⟨e, body⟩]
  rfl

end Conditions

section Loops

variable {keyword within colon : Token} {target value : RawTree} {e : Expr} {loop : LoopTarget}
  {comments trees : List RawTree} {body : List Stmt}

theorem rejectAsync_eq {kind : Kind} {span : Span} {children : List Tree}
    (free : ∀ tree ∈ children, tree.isToken = true → tree.text ≠ "async") :
    rejectAsync kind span children = .ok () := by
  have none_found : (children.any fun child => child.isToken && child.text == "async") = false := by
    simpa using free
  rw [rejectAsync, none_found, if_neg Bool.false_ne_true]

def IsSync (source : Source) (tree : RawTree) : Prop :=
  ∀ opener, (convert source opener tree).isToken = true → (convert source opener tree).text ≠ "async"

theorem isSync_leaf {token : Token} {text : String} (isMark : token.isMark text = true)
    (holds : token.Holds source) (other : text ≠ "async") : IsSync source token.leaf := by
  intro opener _
  have same : (convert source opener token.leaf).text = text := convert_leaf_text isMark holds
  rwa [same]

theorem isSync_named {tree : RawTree} (named : tree.treeKind ≠ .token) : IsSync source tree := by
  intro opener isToken
  rw [convert_isToken, beq_iff_eq] at isToken
  exact absurd isToken named

theorem Reads.isSync {tree : RawTree} (reads : Reads source tree e) (field : String) :
    IsSync source (tree.inField field) := by
  have sort := reads.sort
  simp only [List.mem_cons, not_or] at sort
  exact isSync_named sort.1

theorem rejectAsync_suite {header : List RawTree} (sync : ∀ tree ∈ header, IsSync source tree)
    (kind : Kind) (span : Span) {block : Tree} (isBlock : block.kind = .block) :
    rejectAsync kind span (convertParts source none header ++ [block]) = .ok () := by
  refine rejectAsync_eq fun tree member isToken => ?_
  rcases List.mem_append.1 member with member | member
  · obtain ⟨child, inside, opener, rfl⟩ := mem_convertParts member
    exact sync child inside opener isToken
  · rw [List.mem_singleton.1 member] at isToken
    simp [Tree.isToken, isBlock] at isToken

theorem mapM_symbolOf (symbols : List Symbol) :
    (symbols.map Expr.symbol).mapM LoopTarget.symbolOf? = some symbols := by
  induction symbols with
  | nil => rfl
  | cons symbol rest ih =>
      rw [List.map_cons, List.mapM_cons, ih]
      rfl

theorem ofExpr_toExpr (loop : LoopTarget) : LoopTarget.ofExpr loop.toExpr = .ok loop := by
  cases loop with
  | symbol s => rfl
  | symbols first rest =>
      have items := mapM_symbolOf (first :: rest)
      rw [List.map_cons] at items
      rw [LoopTarget.toExpr, LoopTarget.ofExpr, items]

def loopHeader (keyword : Token) (target : RawTree) (within : Token) (value : RawTree)
    (colon : Token) : List RawTree :=
  [keyword.leaf, target.toPattern.inField "left", within.leaf, value.inField "right", colon.leaf]

theorem readsStmt_for (begins : keyword.isMark "for" = true)
    (readsTarget : Reads source target loop.toExpr) (separates : within.isMark "in" = true)
    (reads : Reads source value e) (ends : colon.isMark ":" = true)
    (holds : ∀ token ∈ [keyword, within, colon], token.Holds source)
    (runs : ReadsBody source (source.rowAt colon.leaf.stop) comments trees (Runs body)) :
    ReadsStmt source (node "for_statement" (loopHeader keyword target within value colon ++
      (comments ++ [(node "block" trees).inField "body"]))) (.forLoop loop e body) := by
  have punctuation := Token.punctuation_of_isMark begins (by decide)
  have punctuation' := Token.punctuation_of_isMark separates (by decide)
  have kind (children : List RawTree) :
      (node "for_statement" children).treeKind = .forStatement := rfl
  -- First the node: the header stands in front of the one body and moves no comment.
  have inert : ∀ tree ∈ [keyword.leaf, target.toPattern.inField "left", within.leaf,
      value.inField "right"], IsInert tree := by
    simp only [List.mem_cons, List.not_mem_nil, or_false]
    rintro tree (rfl | rfl | rfl | rfl)
    · exact isInert_leaf punctuation
    · exact readsTarget.toPattern.isInert _
    · exact isInert_leaf punctuation'
    · exact reads.isInert _
  refine ⟨by rw [kind]; decide, fun field opener => ?_⟩
  obtain ⟨span, text, span', text', opener', layout, lowers, converted⟩ := @convert_suite source
    "for_statement" "body" .forStatement field (loopHeader keyword target within value colon) _
    comments trees [] colon _ rfl rfl rfl inert ends (by simp) runs opener
  -- Then what the translation asks of it, child by child.
  have sync : ∀ tree ∈ loopHeader keyword target within value colon, IsSync source tree := by
    simp only [loopHeader, List.mem_cons, List.not_mem_nil, or_false]
    rintro tree (rfl | rfl | rfl | rfl | rfl)
    · exact isSync_leaf begins (holds _ (by simp)) (by decide)
    · exact readsTarget.toPattern.isSync _
    · exact isSync_leaf separates (holds _ (by simp)) (by decide)
    · exact reads.isSync _
    · exact isSync_leaf ends (holds _ (by simp)) (by decide)
  have synchronous := @rejectAsync_suite source _ sync .forStatement span
    ⟨.block, span', text', some "body", layout⟩ rfl
  have bound : Gives (lift (ofMalformed (LoopTarget.ofExpr loop.toExpr))) loop :=
    gives_lift (by rw [ofExpr_toExpr]; rfl)
  rw [converted, convertParts_nil, lowerStmt,
    exprAt_append (readsTarget.toPattern.exprAt_parts rfl none) _,
    exprAt_append (reads.exprAt_parts rfl none) _,
    blockAt_append (parts_free (by simp [loopHeader])), required, required]
  exact (gives_lift synchronous).bind ((gives_lift (rejectField_suite (by simp [loopHeader]) rfl)).bind
    ((gives_lift rfl).bind ((gives_lift rfl).bind (lowers.bind (bound.bind (gives_pure _))))))

end Loops

section Definitions

variable {keyword colon : Token} {name : String} {nameTree parameters : RawTree}
  {arguments : List Parameter} {comments trees : List RawTree} {body : List Stmt}

structure ReadsParameter (source : Source) (tree : RawTree) (parameter : Parameter) : Prop where
  notComment : tree.isComment = false
  notToken : tree.treeKind ≠ .token
  lowers : ∀ opener, lowerParameter (convert source opener tree) = .ok parameter

theorem ReadsName.parameter (reads : ReadsName source name nameTree) :
    ReadsParameter source nameTree (.plain ⟨name, none⟩) := by
  refine ⟨reads.notComment, by rw [reads.sort]; decide, fun opener => ?_⟩
  have kind : (convert source opener nameTree).kind = .identifier := convert_kind.trans reads.sort
  have text : (convert source opener nameTree).text = name := by
    rw [RawTree.convert_text]
    exact reads.text
  rw [lowerParameter, kind]
  simp only [text]

theorem readsParameter_valued {equals : Token} {value : RawTree} {e : Expr}
    (readsName : ReadsName source name nameTree) (reads : Reads source value e) :
    ReadsParameter source (node "default_parameter"
      [nameTree.inField "name", equals.leaf, value.inField "value"]) (.valued ⟨name, none⟩ e) := by
  have kind (children : List RawTree) :
      (node "default_parameter" children).treeKind = .defaultParameter := rfl
  refine ⟨rfl, by rw [kind]; decide, fun opener => ?_⟩
  obtain ⟨span, text, converted⟩ := @convert_node source opener "default_parameter"
    .defaultParameter [nameTree.inField "name", equals.leaf, value.inField "value"] none rfl rfl
  have converted' : convert source opener (node "default_parameter"
      [nameTree.inField "name", equals.leaf, value.inField "value"]) = _ := converted
  obtain ⟨opener', nameHere⟩ : ∃ opener', ∀ kind span, childAt kind span "name"
      (convertParts source none [nameTree.inField "name", equals.leaf, value.inField "value"]) =
        .ok (convert source opener' (nameTree.inField "name")) :=
    childAt_parts source rfl (by simp [readsName.notComment]) none
  have isName : (convert source opener' (nameTree.inField "name")).kind = .identifier :=
    convert_kind.trans readsName.sort
  have nameText : (convert source opener' (nameTree.inField "name")).text = name :=
    readsName.convert_text (some "name") opener'
  have default : exprAt "value" (convertParts source none
      [nameTree.inField "name", equals.leaf, value.inField "value"]) = some (.ok e) :=
    reads.exprAt_parts rfl none
  simp [converted', lowerParameter, nameHere, isName, nameText, default, required]

structure ReadsParameters (source : Source) (tree : RawTree) (arguments : List Parameter) :
    Prop where
  sort : tree.treeKind = .parameters
  lowers : ∀ field opener,
    lowerParameters (convert source opener { tree with field := field }).children = .ok arguments

theorem readsParameters_node {opening closing : Token} (opens : opening.isMark "(" = true)
    (closes : closing.isMark ")" = true) {items : Option (Chain (RawTree × Parameter))}
    (separates : ∀ chain ∈ items, ∀ comma ∈ chain.separators, comma.isMark "," = true)
    (reads : ∀ chain ∈ items, ∀ item ∈ chain.items, ReadsParameter source item.1 item.2) :
    ReadsParameters source (bracketedNode "parameters" opening
      (itemNodes (items.map (·.map Prod.fst))) closing)
      ((items.map fun chain => chain.items.map Prod.snd).getD []) := by
  refine ⟨rfl, fun field opener => ?_⟩
  have opened := Token.punctuation_of_isMark opens (by decide)
  have closed := Token.punctuation_of_isMark closes (by decide)
  obtain ⟨span, text, converted⟩ := @convert_node source opener "parameters" .parameters
    (opening.leaf :: (itemNodes (items.map (·.map Prod.fst)) ++ [closing.leaf])) field rfl rfl
  have last (opener : Option Nat) :
      ((convertParts source opener [closing.leaf]).filter (!·.isToken)).mapM lowerParameter =
        .ok [] := by
    rw [convertParts_cons closed.2, convertParts_nil, List.filter_cons,
      if_neg (by simp [isToken_leaf closed])]
    rfl
  rw [bracketedNode, converted, lowerParameters, convertParts_cons opened.2,
    List.filter_cons_of_neg (by simp [isToken_leaf opened])]
  cases items with
  | none => exact last _
  | some chain =>
      rw [← List.append_nil ((Option.map _ (some chain)).getD [])]
      refine mapM_nodes (fun item member => ?_) (fun comma member => ?_) last _
      · have here := reads chain rfl item member
        exact ⟨here.notComment, fun opener =>
          ⟨by simp [convert_isToken, here.notToken], here.lowers opener⟩⟩
      · have punctuation := comma_punctuation (separates chain rfl comma member)
        exact ⟨punctuation.2, leaf_unnamed punctuation⟩

def functionHeader (keyword : Token) (nameTree parameters : RawTree) (colon : Token) :
    List RawTree :=
  [keyword.leaf, nameTree.inField "name", parameters.inField "parameters", colon.leaf]

def ReadsPlain (source : Source) (tree : RawTree) (definition : FunctionDef) : Prop :=
  ∀ field opener, ∃ span text children,
    convert source opener { tree with field := field } =
      ⟨.functionDefinition, span, text, field, children⟩ ∧
    Gives (functionFrom .functionDefinition span children
      (blockAt Directive.frontEnd "body" children)) definition

theorem readsPlain_function (begins : keyword.isMark "def" = true)
    (readsName : ReadsName source name nameTree)
    (reads : ReadsParameters source parameters arguments) (ends : colon.isMark ":" = true)
    (holds : ∀ token ∈ [keyword, colon], token.Holds source)
    (runs : ReadsBody source (source.rowAt colon.leaf.stop) comments trees (Runs body)) :
    ReadsPlain source (node "function_definition"
      (functionHeader keyword nameTree parameters colon ++
        (comments ++ [(node "block" trees).inField "body"]))) (.plain name arguments body) := by
  intro field opener
  have punctuation := Token.punctuation_of_isMark begins (by decide)
  have notComment : parameters.isComment = false :=
    isComment_of_treeKind (by rw [reads.sort]; decide) (by rw [reads.sort]; decide)
  have kind (field : String) : (parameters.inField field).treeKind = .parameters := reads.sort
  -- First the node: the header stands in front of the one body and moves no comment.
  have inert : ∀ tree ∈ [keyword.leaf, nameTree.inField "name", parameters.inField "parameters"],
      IsInert tree := by
    simp only [List.mem_cons, List.not_mem_nil, or_false]
    rintro tree (rfl | rfl | rfl)
    · exact isInert_leaf punctuation
    · exact readsName.isInert _
    · exact ⟨by simp [notComment], by rw [kind]; decide⟩
  obtain ⟨span, text, span', text', opener', layout, lowers, converted⟩ := @convert_suite source
    "function_definition" "body" .functionDefinition field
    (functionHeader keyword nameTree parameters colon) _ comments trees [] colon _ rfl rfl rfl inert
    ends (by simp) runs opener
  refine ⟨span, text, _, converted, ?_⟩
  -- Then what the translation asks of it, child by child.
  have sync : ∀ tree ∈ functionHeader keyword nameTree parameters colon, IsSync source tree := by
    simp only [functionHeader, List.mem_cons, List.not_mem_nil, or_false]
    rintro tree (rfl | rfl | rfl | rfl)
    · exact isSync_leaf begins (holds _ (by simp)) (by decide)
    · exact isSync_named (readsName.sort.trans_ne (by decide))
    · exact isSync_named (by rw [kind]; decide)
    · exact isSync_leaf ends (holds _ (by simp)) (by decide)
  have synchronous := @rejectAsync_suite source _ sync .functionDefinition span
    ⟨.block, span', text', some "body", layout⟩ rfl
  obtain ⟨nameOpener, nameHere⟩ : ∃ opener, ∀ kind span, childAt kind span "name"
      (convertParts source none (functionHeader keyword nameTree parameters colon)) =
        .ok (convert source opener (nameTree.inField "name")) :=
    childAt_parts source rfl (by simp [readsName.notComment]) none
  obtain ⟨listOpener, listHere⟩ : ∃ opener, ∀ kind span, childAt kind span "parameters"
      (convertParts source none (functionHeader keyword nameTree parameters colon)) =
        .ok (convert source opener (parameters.inField "parameters")) :=
    childAt_parts source rfl (by simp [notComment]) none
  have nameText : (convert source nameOpener (nameTree.inField "name")).text = name :=
    readsName.convert_text (some "name") nameOpener
  have lowered : lowerParameters
      (convert source listOpener (parameters.inField "parameters")).children = .ok arguments :=
    reads.lowers (some "parameters") listOpener
  have noResult : rejectField "function return type" "return_type"
      (convertParts source none (functionHeader keyword nameTree parameters colon) ++
        [⟨.block, span', text', some "body", layout⟩]) = .ok () :=
    rejectField_suite (by simp [functionHeader]) rfl
  have noTypes : rejectField "function type parameters" "type_parameters"
      (convertParts source none (functionHeader keyword nameTree parameters colon) ++
        [⟨.block, span', text', some "body", layout⟩]) = .ok () :=
    rejectField_suite (by simp [functionHeader]) rfl
  rw [convertParts_nil, functionFrom, lowerHeader, synchronous, noResult, noTypes,
    childAt_append (nameHere _ _), childAt_append (listHere _ _),
    blockAt_append (parts_free (by simp [functionHeader]))]
  simp only [ok_bind, nameText, lowered]
  exact (gives_lift rfl).bind (lowers.bind (gives_pure _))

structure ReadsFunction (source : Source) (tree : RawTree) (definition : FunctionDef) : Prop where
  sort : tree.treeKind ∈ [.functionDefinition, .decoratedDefinition]
  lowers : ∀ field opener, Gives (lowerMethod Directive.frontEnd
    (convert source opener { tree with field := field })) definition

theorem ReadsPlain.readsFunction {children : List RawTree} {definition : FunctionDef}
    (reads : ReadsPlain source (node "function_definition" children) definition) :
    ReadsFunction source (node "function_definition" children) definition := by
  refine ⟨.head _, fun field opener => ?_⟩
  obtain ⟨span, text, children, converted, gives⟩ := reads field opener
  rw [converted, lowerMethod]
  exact gives

theorem ReadsFunction.readsStmt {tree : RawTree} {definition : FunctionDef}
    (reads : ReadsFunction source tree definition) :
    ReadsStmt source tree (.functionDef definition) := by
  have apart : ∀ kind ∈ [Kind.functionDefinition, .decoratedDefinition],
      kind ∉ [Kind.token, .comment, .blankLine] := by decide
  refine ⟨apart _ reads.sort, fun field opener => ?_⟩
  have gives := reads.lowers field opener
  have kind : (convert source opener { tree with field := field }).kind ∈
      [.functionDefinition, .decoratedDefinition] := by
    rw [convert_kind]
    exact reads.sort
  generalize convert source opener { tree with field := field } = converted at gives kind
  obtain ⟨kind, span, text, field, children⟩ := converted
  simp only [List.mem_cons, List.not_mem_nil, or_false] at kind
  rcases kind with rfl | rfl
  · rw [lowerMethod] at gives
    rw [lowerStmt]
    exact gives.bind (gives_pure _)
  · rw [lowerMethod] at gives
    rw [lowerStmt]
    exact gives.bind (gives_pure _)

structure ReadsDecorator (source : Source) (tree : RawTree) (entry : String × List Expr) :
    Prop where
  sort : tree.treeKind = .decorator
  lowers : ∀ opener, lowerDecorator (convert source opener tree) = .ok entry

theorem decorator_children {sign : Token} {value : RawTree} (marks : sign.isMark "@" = true)
    (notComment : value.isComment = false) (named : value.treeKind ≠ .token)
    (opener : Option Nat) : ∃ span text opener',
      convert source opener (decoratorNode sign value) = ⟨.decorator, span, text, none,
        [convert source none sign.leaf, convert source opener' value]⟩ ∧
      (convert source none sign.leaf).isToken = true ∧
      (convert source opener' value).isToken = false := by
  have punctuation := Token.punctuation_of_isMark marks (by decide)
  obtain ⟨span, text, converted⟩ := @convert_node source opener "decorator" .decorator
    [sign.leaf, value] none rfl rfl
  have converted' : convert source opener (decoratorNode sign value) = _ := converted
  refine ⟨span, text, some (source.rowAt sign.leaf.stop), ?_, isToken_leaf punctuation, ?_⟩
  · rw [converted', convertParts_cons punctuation.2, convertParts_cons notComment, convertParts_nil]
  · rw [convert_isToken, beq_eq_false_iff_ne]
    exact named

theorem kind_of_lowerCallee {tree : Tree} {callee : Name} (lowered : lowerCallee tree = .ok callee) :
    tree.kind = .identifier ∨ tree.kind = .attributeAccess := by
  unfold lowerCallee at lowered
  split at lowered
  next isName => exact .inl isName
  next isAttribute => exact .inr isAttribute
  next => cases lowered

theorem ReadsCallee.lower {tree : RawTree} {callee : Name} (reads : ReadsCallee source tree callee)
    (opener : Option Nat) : lowerCallee (convert source opener tree) = .ok callee := by
  cases tree
  exact reads.lowers _ opener

theorem readsDecorator_name {sign : Token} {value : RawTree} {callee : Name}
    (marks : sign.isMark "@" = true) (reads : ReadsCallee source value callee) :
    ReadsDecorator source (decoratorNode sign value) (callee.text, []) := by
  have kind : value.treeKind = .identifier ∨ value.treeKind = .attributeAccess := by
    rw [← @convert_kind source none value]
    exact kind_of_lowerCallee (reads.lower none)
  have named : value.treeKind ≠ .token := by
    rcases kind with kind | kind <;> rw [kind] <;> decide
  have notCall : value.treeKind ≠ .call := by
    rcases kind with kind | kind <;> rw [kind] <;> decide
  refine ⟨rfl, fun opener => ?_⟩
  obtain ⟨span, text, opener', converted, token, other⟩ :=
    @decorator_children source _ _ marks reads.notComment named opener
  have notCall' : (convert source opener' value).kind ≠ .call := by
    rw [convert_kind]
    exact notCall
  simp [converted, lowerDecorator, Tree.namedChildren, token, other, notCall', reads.lower,
    Except.map]

theorem readsDecorator_call {sign : Token} {value : RawTree} {callee : Name} {args : List Expr}
    (marks : sign.isMark "@" = true) (call : ReadsCall source value callee args) :
    ReadsDecorator source (decoratorNode sign value) (callee.text, args) := by
  refine ⟨rfl, fun opener => ?_⟩
  obtain ⟨span, text, opener', converted, token, other⟩ := @decorator_children source _ _ marks
    call.reads.notComment (by rw [call.sort]; decide) opener
  have callHere : ∃ span text function children,
      convert source opener' value = ⟨.call, span, text, value.field, children⟩ ∧
        children.find? (·.fills "function") = some function ∧
        lowerCallee function = .ok callee ∧ argumentsAt children = some (.ok args) := by
    cases value
    exact call.lowers _ opener'
  obtain ⟨span', text', function, children, child, found, lowered, arguments⟩ := callHere
  rw [child] at converted other
  have named : Tree.namedChildren (convert source opener (decoratorNode sign value)) =
      [⟨.call, span', text', value.field, children⟩] := by
    rw [converted, Tree.namedChildren]
    simp [token, other]
  rw [lowerDecorator, named]
  simp [childAt, found, required, lowered, arguments]

theorem decorators_parts {decorators : List RawTree} {entries : List (String × List Expr)}
    (reads : List.Forall₂ (ReadsDecorator source) decorators entries) {last : RawTree}
    (notComment : last.isComment = false) (other : last.treeKind ≠ .decorator)
    (opener : Option Nat) :
    ((convertParts source opener (decorators ++ [last])).filter (·.kind == .decorator)).mapM
      lowerDecorator = .ok entries := by
  induction reads generalizing opener with
  | nil =>
      rw [List.nil_append, convertParts_cons notComment, convertParts_nil]
      simp [convert_kind, other]
      rfl
  | @cons tree entry decorators entries first later ih =>
      have kind : ((convert source opener tree).kind == .decorator) = true := by
        rw [convert_kind, first.sort]
        rfl
      rw [List.cons_append, convertParts_cons (isComment_of_treeKind (by rw [first.sort]; decide)
        (by rw [first.sort]; decide)), List.filter_cons, if_pos kind, List.mapM_cons, first.lowers,
        ok_bind, ih]
      rfl

theorem readsFunction_decorated {decorators : List RawTree} {definition : FunctionDef}
    {table : Table (List Expr)} {children : List RawTree}
    (reads : List.Forall₂ (ReadsDecorator source) decorators table.entries)
    (plain : ∀ tree ∈ decorators, tree.field = none)
    (readsPlain : ReadsPlain source (node "function_definition" children) definition) :
    ReadsFunction source (node "decorated_definition"
      (decorators ++ [(node "function_definition" children).inField "definition"]))
      { definition with decorators := table } := by
  refine ⟨.tail _ (.head _), fun field opener => ?_⟩
  have sorts : ∀ tree ∈ decorators, tree.treeKind = .decorator := by
    intro tree member
    obtain ⟨entry, _, decorator⟩ := exists_right reads member
    exact decorator.sort
  -- There is no comment among the decorators, so the conversion moves nothing.
  have notComment : ∀ tree ∈ decorators ++
      [(node "function_definition" children).inField "definition"], tree.isComment = false := by
    intro tree member
    rcases List.mem_append.1 member with member | member
    · exact isComment_of_treeKind (by rw [sorts tree member]; decide)
        (by rw [sorts tree member]; decide)
    · rw [List.mem_singleton.1 member]
      rfl
  have notComment' : ∀ tree ∈ convertKept source none (decorators ++
      [(node "function_definition" children).inField "definition"]), Layout.isComment tree = false := by
    intro tree member
    obtain ⟨child, inside, opener', rfl⟩ := mem_convertKept member
    rw [Layout.isComment, convert_kind]
    rcases List.mem_append.1 inside with inside | inside
    · rw [sorts child inside]
      rfl
    · rw [List.mem_singleton.1 inside]
      rfl
  obtain ⟨span, text, converted⟩ := @convert_compound source opener "decorated_definition"
    .decoratedDefinition (decorators ++ [(node "function_definition" children).inField "definition"])
    field rfl rfl
  rw [hoistComments_plain notComment', List.nil_append, convertKept_eq notComment] at converted
  have kind : ((node "function_definition" children).inField "definition").treeKind =
      .functionDefinition := rfl
  have tables := @decorators_parts source _ _ reads
    ((node "function_definition" children).inField "definition") rfl (by rw [kind]; decide) none
  -- The definition is the only child in its field: the decorators are in none.
  have last : (decorators ++ [(node "function_definition" children).inField "definition"]).find?
      (·.field == some "definition") =
        some ((node "function_definition" children).inField "definition") := by
    have none_found : decorators.find? (·.field == some "definition") = none :=
      List.find?_eq_none.2 fun tree member => by simp [plain tree member]
    rw [List.find?_append, none_found]
    rfl
  obtain ⟨opener', found⟩ := find_parts source last rfl none
  obtain ⟨span', text', inner, definitionTree, gives⟩ := readsPlain (some "definition") opener'
  rw [converted, lowerMethod, decoratedFrom, lowerDecorators, tables, definitionAt_eq, found,
    Option.map_some, RawTree.inField, definitionTree, lowerDefinition, if_pos rfl]
  refine (gives_lift rfl).bind (gives.bind ?_)
  rw [Table.ofList_entries]
  exact gives_pure _

def HoldsMethods (owner : String) (methods : List FunctionDef) (layout : List Tree) : Prop :=
  Gives (lowerMemberList Directive.frontEnd owner layout) methods

def classHeader (keyword : Token) (nameTree : RawTree) (colon : Token) : List RawTree :=
  [keyword.leaf, nameTree.inField "name", colon.leaf]

theorem membersAt_append {frontEnd : FrontEnd} {owner : String} {front : List Tree}
    (passed : ∀ tree ∈ front, tree.fills "body" = false) {span : Span} {text : String}
    {layout : List Tree} :
    membersAt frontEnd owner (front ++ [⟨.block, span, text, some "body", layout⟩]) =
      some (lowerMemberList frontEnd owner layout) := by
  rw [membersAt_eq, find_behind passed (by simp [Tree.fills]), Option.map_some, lowerMembers]

theorem readsStmt_class {methods : List FunctionDef} (begins : keyword.isMark "class" = true)
    (readsName : ReadsName source name nameTree) (ends : colon.isMark ":" = true)
    (holds : ReadsBody source (source.rowAt colon.leaf.stop) comments trees
      (HoldsMethods name methods)) :
    ReadsStmt source (node "class_definition" (classHeader keyword nameTree colon ++
      (comments ++ [(node "block" trees).inField "body"]))) (.ofMethods name methods) := by
  have punctuation := Token.punctuation_of_isMark begins (by decide)
  have kind (children : List RawTree) :
      (node "class_definition" children).treeKind = .classDefinition := rfl
  have inert : ∀ tree ∈ [keyword.leaf, nameTree.inField "name"], IsInert tree := by
    simp only [List.mem_cons, List.not_mem_nil, or_false]
    rintro tree (rfl | rfl)
    · exact isInert_leaf punctuation
    · exact readsName.isInert _
  refine ⟨by rw [kind]; decide, fun field opener => ?_⟩
  obtain ⟨span, text, span', text', opener', layout, lowers, converted⟩ := @convert_suite source
    "class_definition" "body" .classDefinition field (classHeader keyword nameTree colon) _ comments
    trees [] colon _ rfl rfl rfl inert ends (by simp) holds opener
  obtain ⟨nameOpener, nameHere⟩ : ∃ opener, ∀ kind span, childAt kind span "name"
      (convertParts source none (classHeader keyword nameTree colon)) =
        .ok (convert source opener (nameTree.inField "name")) :=
    childAt_parts source rfl (by simp [readsName.notComment]) none
  have nameText : (convert source nameOpener (nameTree.inField "name")).text = name :=
    readsName.convert_text (some "name") nameOpener
  rw [converted, convertParts_nil, lowerStmt, childAt_append (nameHere _ _)]
  refine (gives_lift (rejectField_suite (by simp [classHeader]) rfl)).bind
    ((gives_lift rfl).bind ?_)
  rw [nameText, membersAt_append (parts_free (by simp [classHeader]))]
  exact lowers.bind (gives_pure _)

end Definitions

end Grammar

end NumericPython
