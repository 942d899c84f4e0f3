import NumericPython.Proofs.Grammar.Expressions
import NumericPython.Text.Row

set_option autoImplicit false

/-!
The grammar of the supported statements. A statement, or the header of a compound one, stands on a
row of its own, and the rows of a body stand deeper than its header. A comment has a row of its own,
too, and belongs to the level that is open where it stands.
-/

namespace NumericPython

namespace RawTree

mutual

def isTarget : RawTree → Bool
  | ⟨kind, _, _, _, _, _, _, children⟩ =>
    ["identifier", "attribute", "subscript"].contains kind ||
      (["tuple", "expression_list"].contains kind && areTargets children)

def areTargets : List RawTree → Bool
  | [] => true
  | tree :: rest => (!tree.isNamed || isTarget tree) && areTargets rest

end

mutual

/-- The node of a target, given that of the expression which looks the same. -/
def toPattern : RawTree → RawTree
  | ⟨kind, field, start, stop, isNamed, isError, isMissing, children⟩ =>
    if kind = "tuple" then
      ⟨"tuple_pattern", field, start, stop, isNamed, isError, isMissing, toPatterns children⟩
    else if kind = "expression_list" then
      ⟨"pattern_list", field, start, stop, isNamed, isError, isMissing, toPatterns children⟩
    else ⟨kind, field, start, stop, isNamed, isError, isMissing, children⟩

def toPatterns : List RawTree → List RawTree
  | [] => []
  | tree :: rest => toPattern tree :: toPatterns rest

end

end RawTree

namespace Grammar

section Rows

inductive Content where
  | comment (start stop : Nat)
  | words (tokens : List Token)

structure FilledRow where
  indent : Nat
  content : Content

namespace FilledRow

def comment? (row : FilledRow) : Option RawTree :=
  match row.content with
  | .comment start stop => some ⟨"comment", none, start, stop, true, false, false, []⟩
  | .words _ => none

def continues (row : FilledRow) : Bool :=
  match row.content with
  | .words (token :: _) => token.isMark "elif" || token.isMark "else"
  | _ => false

end FilledRow

def spaces (n : Nat) : List Char :=
  List.replicate n ' '

inductive RowReads (alphabet : Alphabet) : Row → FilledRow → Prop
  | comment {start indent : Nat} {text : List Char} :
      RowReads alphabet ⟨start, spaces indent ++ '#' :: text⟩
        ⟨indent, .comment (start + indent) (start + indent + Text.byteSize ('#' :: text))⟩
  | words {start indent : Nat} {text : List Char} {tokens : List Token}
      (lexes : Lexes alphabet (start + indent) text tokens) (some_word : tokens ≠ [])
      (noSpace : text.head? ≠ some ' ') :
      RowReads alphabet ⟨start, spaces indent ++ text⟩ ⟨indent, .words tokens⟩

inductive RowsRead (alphabet : Alphabet) : List Row → List FilledRow → Prop
  | nil : RowsRead alphabet [] []
  | blank {start indent : Nat} {rows : List Row} {lines : List FilledRow}
      (later : RowsRead alphabet rows lines) :
      RowsRead alphabet (⟨start, spaces indent⟩ :: rows) lines
  | filled {row : Row} {line : FilledRow} {rows : List Row} {lines : List FilledRow}
      (reads : RowReads alphabet row line) (later : RowsRead alphabet rows lines) :
      RowsRead alphabet (row :: rows) (line :: lines)

end Rows

section Words

inductive Clause where
  | conditional
  | alternative
  | otherwise
  | whileLoop
  | forLoop
  | function
  | classBody
deriving DecidableEq

namespace Clause

def keyword : Clause → String
  | conditional => "if"
  | alternative => "elif"
  | otherwise => "else"
  | whileLoop => "while"
  | forLoop => "for"
  | function => "def"
  | classBody => "class"

def nodeName : Clause → String
  | conditional => "if_statement"
  | alternative => "elif_clause"
  | otherwise => "else_clause"
  | whileLoop => "while_statement"
  | forLoop => "for_statement"
  | function => "function_definition"
  | classBody => "class_definition"

def bodyField : Clause → String
  | conditional | alternative => "consequence"
  | _ => "body"

def hasCondition : Clause → Bool
  | conditional | alternative | whileLoop => true
  | _ => false

def standsAlone : Clause → Bool
  | whileLoop | forLoop | function | classBody => true
  | _ => false

def isDefinition : Clause → Bool
  | function | classBody => true
  | _ => false

end Clause

structure Chain.IsSeries (separator : String) (item : List Token → RawTree → Prop)
    (chain : Chain Part) : Prop where
  separates : ∀ token ∈ chain.separators, token.isMark separator = true
  items : ∀ part ∈ chain.items, item part.tokens part.tree

inductive Values : List Token → RawTree → Prop
  | one {tokens : List Token} {tree : RawTree} (value : Derives (.at .or) tokens tree) :
      Values tokens tree
  | several {chain : Chain Part} (some_more : chain.more ≠ [])
      (series : chain.IsSeries "," (Derives (.at .or))) :
      Values (chain.map Part.tokens).tokens
        (node "expression_list" ((chain.map Part.tree).nodes id id))

inductive NameItem : List Token → RawTree → Prop
  | name {token : Token} (isName : token.kind = .name) : NameItem [token] token.leaf

inductive PathItem : List Token → RawTree → Prop
  | path {chain : Chain Part} (series : chain.IsSeries "." NameItem) :
      PathItem (chain.map Part.tokens).tokens
        (node "dotted_name" ((chain.map Part.tree).nodes id id))

inductive ImportItem : List Token → RawTree → Prop
  | path {tokens : List Token} {tree : RawTree} (isPath : PathItem tokens tree) :
      ImportItem tokens tree
  | renamed {path : Part} {keyword name : Token} (isPath : PathItem path.tokens path.tree)
      (isAs : keyword.isMark "as" = true) (isName : name.kind = .name) :
      ImportItem (path.tokens ++ [keyword, name])
        (node "aliased_import"
          [path.tree.inField "name", keyword.leaf, name.leaf.inField "alias"])

inductive ParameterItem : List Token → RawTree → Prop
  | plain {name : Token} (isName : name.kind = .name) : ParameterItem [name] name.leaf
  | valued {name equals : Token} {value : Part} (isName : name.kind = .name)
      (assigns : equals.isMark "=" = true) (derives : Derives (.at .or) value.tokens value.tree) :
      ParameterItem (name :: equals :: value.tokens)
        (node "default_parameter"
          [name.leaf.inField "name", equals.leaf, value.tree.inField "value"])

def augmentedMarks : List String :=
  ["+=", "-=", "*=", "/=", "**="]

def assignmentNode (kind : String) (left : RawTree) (operator right : RawTree) : RawTree :=
  node "expression_statement"
    [node kind [left.toPattern.inField "left", operator, right.inField "right"]]

/-- What the first word of a statement tells about it. -/
inductive Lead where
  | expression
  | returned
  | pass
  | imports
  | importsFrom
  | clause (clause : Clause)
  | decorator
deriving DecidableEq

inductive Simple : Lead → List Token → RawTree → Prop
  | expression {tokens : List Token} {tree : RawTree} (value : Derives (.at .or) tokens tree) :
      Simple .expression tokens (node "expression_statement" [tree])
  | assignment {target value : Part} {equals : Token} (left : Values target.tokens target.tree)
      (isTarget : target.tree.isTarget = true) (assigns : equals.isMark "=" = true)
      (right : Values value.tokens value.tree) :
      Simple .expression (target.tokens ++ equals :: value.tokens)
        (assignmentNode "assignment" target.tree equals.leaf value.tree)
  | augmented {target value : Part} {operator : Token} {mark : String}
      (left : Derives (.at .or) target.tokens target.tree)
      (isTarget : target.tree.isTarget = true) (known : mark ∈ augmentedMarks)
      (assigns : operator.isMark mark = true) (right : Values value.tokens value.tree) :
      Simple .expression (target.tokens ++ operator :: value.tokens)
        (assignmentNode "augmented_assignment" target.tree (operator.leaf.inField "operator")
          value.tree)
  | returned {keyword : Token} {value : Part} (returns : keyword.isMark "return" = true)
      (values : Values value.tokens value.tree) :
      Simple .returned (keyword :: value.tokens) (node "return_statement" [keyword.leaf, value.tree])
  | pass {keyword : Token} (passes : keyword.isMark "pass" = true) :
      Simple .pass [keyword] (node "pass_statement" [keyword.leaf])
  | imports {keyword : Token} {chain : Chain Part} (imports : keyword.isMark "import" = true)
      (series : chain.IsSeries "," ImportItem) :
      Simple .imports (keyword :: (chain.map Part.tokens).tokens)
        (node "import_statement"
          (keyword.leaf :: (chain.map Part.tree).nodes (RawTree.inField "name") id))
  | importsFrom {keyword keyword' : Token} {path : Part} {chain : Chain Part}
      (starts : keyword.isMark "from" = true) (isPath : PathItem path.tokens path.tree)
      -- Imports of features of the language are statements of another kind.
      (notFuture : path.tokens.map Token.text ≠ ["__future__".toList])
      (imports : keyword'.isMark "import" = true) (series : chain.IsSeries "," ImportItem) :
      Simple .importsFrom (keyword :: (path.tokens ++ keyword' :: (chain.map Part.tokens).tokens))
        (node "import_from_statement"
          (keyword.leaf :: path.tree.inField "module_name" :: keyword'.leaf ::
            (chain.map Part.tree).nodes (RawTree.inField "name") id))

end Words

section Headers

inductive Header : Clause → List Token → List RawTree → Prop
  | condition {clause : Clause} {keyword colon : Token} {value : Part}
      (holds : clause.hasCondition = true) (begins : keyword.isMark clause.keyword = true)
      (derives : Derives (.at .or) value.tokens value.tree) (ends : colon.isMark ":" = true) :
      Header clause (keyword :: (value.tokens ++ [colon]))
        [keyword.leaf, value.tree.inField "condition", colon.leaf]
  | otherwise {keyword colon : Token} (begins : keyword.isMark "else" = true)
      (ends : colon.isMark ":" = true) :
      Header .otherwise [keyword, colon] [keyword.leaf, colon.leaf]
  | loop {keyword within colon : Token} {target value : Part}
      (begins : keyword.isMark "for" = true) (left : Values target.tokens target.tree)
      (isTarget : target.tree.isTarget = true) (separates : within.isMark "in" = true)
      (right : Values value.tokens value.tree) (ends : colon.isMark ":" = true) :
      Header .forLoop (keyword :: (target.tokens ++ within :: (value.tokens ++ [colon])))
        [keyword.leaf, target.tree.toPattern.inField "left", within.leaf,
          value.tree.inField "right", colon.leaf]
  | function {keyword name opening closing colon : Token} {items : Option (Chain Part)}
      (begins : keyword.isMark "def" = true) (isName : name.kind = .name)
      (opens : opening.isMark "(" = true)
      (series : ∀ chain ∈ items, chain.IsSeries "," ParameterItem)
      (closes : closing.isMark ")" = true) (ends : colon.isMark ":" = true) :
      Header .function (keyword :: name :: opening :: (itemTokens items ++ [closing, colon]))
        [keyword.leaf, name.leaf.inField "name",
          (bracketedNode "parameters" opening (itemNodes (items.map (·.map Part.tree)))
            closing).inField "parameters", colon.leaf]
  | classBody {keyword name colon : Token} (begins : keyword.isMark "class" = true)
      (isName : name.kind = .name) (ends : colon.isMark ":" = true) :
      Header .classBody [keyword, name, colon]
        [keyword.leaf, name.leaf.inField "name", colon.leaf]

def decoratorNode (sign : Token) (value : RawTree) : RawTree :=
  node "decorator" [sign.leaf, value]

end Headers

section Blocks

def frontComments (lines : List FilledRow) : List RawTree :=
  (lines.takeWhile (·.comment?.isSome)).filterMap FilledRow.comment?

def behindComments (lines : List FilledRow) : List FilledRow :=
  lines.dropWhile (·.comment?.isSome)

/-- Whether a block whose rows stand at `indent` is over: a comment does not end it, unless it stands
less deep and no statement of the block follows. -/
def Ends (indent : Nat) (lines : List FilledRow) : Prop :=
  (∀ line ∈ lines.head?, line.indent < indent) ∧
    ∀ line ∈ (behindComments lines).head?, line.indent < indent

/-- Whether no further branch of a conditional at `indent` follows. -/
def NotContinued (indent : Nat) (lines : List FilledRow) : Prop :=
  ∀ line ∈ (behindComments lines).head?, line.indent = indent → line.continues = false

inductive Form where
  | block
  | statement
  | clause (clause : Clause)
  | alternatives
  | decorated

/-- At the front of `lines` stands a form at the given indentation. It has the given nodes, and
`rest` is what it leaves. -/
inductive Builds : Form → Nat → List FilledRow → List RawTree → List FilledRow → Prop
  | done {indent : Nat} {lines : List FilledRow} (ends : Ends indent lines) :
      Builds .block indent lines [] lines
  | comment {indent : Nat} {line : FilledRow} {lines rest : List FilledRow} {tree : RawTree}
      {trees : List RawTree} (isComment : line.comment? = some tree)
      (goesOn : ¬Ends indent (line :: lines)) (later : Builds .block indent lines trees rest) :
      Builds .block indent (line :: lines) (tree :: trees) rest
  | statement {indent : Nat} {lines middle rest : List FilledRow} {tree : RawTree}
      {trees : List RawTree} (first : Builds .statement indent lines [tree] middle)
      (later : Builds .block indent middle trees rest) :
      Builds .block indent lines (tree :: trees) rest
  | simple {indent : Nat} {lead : Lead} {tokens : List Token} {tree : RawTree}
      {rest : List FilledRow} (simple : Simple lead tokens tree) :
      Builds .statement indent (⟨indent, .words tokens⟩ :: rest) [tree] rest
  | compound {clause : Clause} {indent : Nat} {lines rest : List FilledRow}
      {children : List RawTree} (alone : clause.standsAlone = true)
      (inner : Builds (.clause clause) indent lines children rest) :
      Builds .statement indent lines [node clause.nodeName children] rest
  | conditional {indent : Nat} {lines middle rest : List FilledRow}
      {children trees : List RawTree}
      (first : Builds (.clause .conditional) indent lines children middle)
      (others : Builds .alternatives indent middle trees rest) :
      Builds .statement indent lines
        [node Clause.conditional.nodeName (children ++ trees)] rest
  | decorated {indent : Nat} {sign : Token} {value : Part} {lines rest : List FilledRow}
      {children : List RawTree} (marks : sign.isMark "@" = true)
      (derives : Derives (.at .or) value.tokens value.tree)
      (inner : Builds .decorated indent lines children rest) :
      Builds .statement indent (⟨indent, .words (sign :: value.tokens)⟩ :: lines)
        [node "decorated_definition" (decoratorNode sign value.tree :: children)] rest
  | decorator {indent : Nat} {sign : Token} {value : Part} {lines rest : List FilledRow}
      {children : List RawTree} (marks : sign.isMark "@" = true)
      (derives : Derives (.at .or) value.tokens value.tree)
      (inner : Builds .decorated indent lines children rest) :
      Builds .decorated indent (⟨indent, .words (sign :: value.tokens)⟩ :: lines)
        (decoratorNode sign value.tree :: children) rest
  | definition {clause : Clause} {indent : Nat} {lines rest : List FilledRow}
      {children : List RawTree} (defines : clause.isDefinition = true)
      (inner : Builds (.clause clause) indent lines children rest) :
      Builds .decorated indent lines [(node clause.nodeName children).inField "definition"] rest
  | suite {clause : Clause} {indent inner : Nat} {tokens : List Token}
      {header trees : List RawTree} {lines rest : List FilledRow}
      (begins : Header clause tokens header) (deeper : indent < inner)
      (first : (behindComments lines).head?.map FilledRow.indent = some inner)
      (body : Builds .block inner (behindComments lines) trees rest) :
      Builds (.clause clause) indent (⟨indent, .words tokens⟩ :: lines)
        (header ++ (frontComments lines ++ [(node "block" trees).inField clause.bodyField])) rest
  | finished {indent : Nat} {lines : List FilledRow} (last : NotContinued indent lines) :
      Builds .alternatives indent lines [] lines
  | alternative {indent : Nat} {lines middle rest : List FilledRow}
      {children trees : List RawTree}
      (first : Builds (.clause .alternative) indent (behindComments lines) children middle)
      (others : Builds .alternatives indent middle trees rest) :
      Builds .alternatives indent lines
        (frontComments lines ++
          (node Clause.alternative.nodeName children).inField "alternative" :: trees) rest
  | otherwise {indent : Nat} {lines rest : List FilledRow} {children : List RawTree}
      (last : Builds (.clause .otherwise) indent (behindComments lines) children rest) :
      Builds .alternatives indent lines
        (frontComments lines ++
          [(node Clause.otherwise.nodeName children).inField "alternative"]) rest

end Blocks

def moduleNode (text : String) (trees : List RawTree) : RawTree :=
  ⟨"module", none, (trees.head?.map (·.start)).getD (Text.byteSize text.toList),
    Text.byteSize text.toList, true, false, false, trees⟩

/-- A text is a source file with the given tree. -/
def ParsesModule (alphabet : Alphabet) (text : String) (tree : RawTree) : Prop :=
  ∃ lines trees, RowsRead alphabet (Row.split 0 text.toList) lines ∧
    Builds .block 0 lines trees [] ∧ tree = moduleNode text trees

end Grammar

end NumericPython
