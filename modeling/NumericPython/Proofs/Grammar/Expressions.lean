import NumericPython.Printing.Precedence
import NumericPython.Proofs.Grammar.Tokens
import NumericPython.Tree.Raw

set_option autoImplicit false

namespace NumericPython

namespace RawTree

def inField (field : String) (tree : RawTree) : RawTree :=
  { tree with field := some field }

end RawTree

namespace Grammar

def constants : List (List Char × String) :=
  [("True".toList, "true"), ("False".toList, "false"), ("None".toList, "none")]

def levels : List (List Char × Precedence) :=
  -- These words carry on an expression on the given levels.
  [("or".toList, .or), ("and".toList, .and), ("==".toList, .comparison), ("!=".toList, .comparison),
    ("<>".toList, .comparison), ("<".toList, .comparison), ("<=".toList, .comparison),
    (">".toList, .comparison), (">=".toList, .comparison), ("+".toList, .sum), ("-".toList, .sum),
    ("*".toList, .product), ("/".toList, .product), ("**".toList, .power), ("(".toList, .atom),
    ("[".toList, .atom), (".".toList, .atom)]

namespace Token

def nodeName (token : Token) : String :=
  match token.kind with
  | .name => "identifier"
  | .integer => "integer"
  | .float => "float"
  | .string => "string"
  | .mark => (constants.lookup token.text).getD (String.ofList token.text)

def isOperand (token : Token) : Bool :=
  match token.kind with
  | .mark => (constants.lookup token.text).isSome
  | _ => true

def leaf (token : Token) : RawTree :=
  ⟨token.nodeName, none, token.start, token.stop, token.isOperand, false, false, []⟩

def level? (token : Token) : Option Precedence :=
  if token.kind = .mark then levels.lookup token.text else none

end Token

def node (kind : String) (children : List RawTree) : RawTree :=
  ⟨kind, none, (children.head?.map (·.start)).getD 0, (children.getLast?.map (·.stop)).getD 0, true,
    false, false, children⟩

structure Chain (α : Type) where
  first : α
  more : List (Token × α)

namespace Chain

variable {α β : Type}

def items (chain : Chain α) : List α :=
  chain.first :: chain.more.map Prod.snd

def separators (chain : Chain α) : List Token :=
  chain.more.map Prod.fst

def map (f : α → β) (chain : Chain α) : Chain β :=
  ⟨f chain.first, chain.more.map fun link => (link.1, f link.2)⟩

def tokens (chain : Chain (List Token)) : List Token :=
  chain.first ++ chain.more.flatMap fun link => link.1 :: link.2

def nodes (item separator : RawTree → RawTree) (chain : Chain RawTree) : List RawTree :=
  item chain.first :: chain.more.flatMap fun link => [separator link.1.leaf, item link.2]

end Chain

structure Part where
  tokens : List Token
  tree : RawTree

def Part.optionalTokens (part : Option Part) : List Token :=
  (part.map Part.tokens).getD []

def itemTokens (items : Option (Chain Part)) : List Token :=
  (items.map fun chain => (chain.map Part.tokens).tokens).getD []

def itemNodes (items : Option (Chain RawTree)) : List RawTree :=
  (items.map (·.nodes id id)).getD []

def bracketedNode (kind : String) (opening : Token) (inside : List RawTree) (closing : Token) :
    RawTree :=
  node kind (opening.leaf :: (inside ++ [closing.leaf]))

def operationNode (kind : String) (left : RawTree) (operator : Token) (right : RawTree) : RawTree :=
  node kind [left.inField "left", operator.leaf.inField "operator", right.inField "right"]

def prefixedNode (kind : String) (operator : RawTree) (argument : RawTree) : RawTree :=
  node kind [operator, argument.inField "argument"]

def comparisonNode (chain : Chain RawTree) : RawTree :=
  node "comparison_operator" (chain.nodes id (RawTree.inField "operators"))

def callNode (function : RawTree) (opening : Token) (arguments : Option (Chain RawTree))
    (closing : Token) : RawTree :=
  node "call" [function.inField "function",
    (bracketedNode "argument_list" opening (itemNodes arguments) closing).inField "arguments"]

def subscriptNode (base : RawTree) (opening : Token) (indices : Chain RawTree) (closing : Token) :
    RawTree :=
  node "subscript" (base.inField "value" :: opening.leaf ::
    (indices.nodes (RawTree.inField "subscript") id ++ [closing.leaf]))

def attributeNode (object : RawTree) (dot name : Token) : RawTree :=
  node "attribute" [object.inField "object", dot.leaf, name.leaf.inField "attribute"]

def sliceNode (start : Option RawTree) (colon : Token) (stop : Option RawTree)
    (step : Option (Token × Option RawTree)) : RawTree :=
  node "slice" (start.toList ++ colon.leaf :: (stop.toList ++
    (step.map fun link => link.1.leaf :: link.2.toList).getD []))

inductive Phrase where
  | at (level : Precedence)
  | index

/-- The levels whose operators group to the left, with the names of their nodes. -/
def leftGrouping? : Precedence → Option String
  | .or | .and => some "boolean_operator"
  | .sum | .product => some "binary_operator"
  | _ => none

inductive Derives : Phrase → List Token → RawTree → Prop
  | weaken {p q : Precedence} {tokens : List Token} {tree : RawTree} (le : p ≤ q)
      (inner : Derives (.at q) tokens tree) : Derives (.at p) tokens tree
  | binary {p q : Precedence} {kind : String} {left right : Part} {operator : Token}
      (groups : leftGrouping? p = some kind) (level : operator.level? = some p) (lt : p < q)
      (before : Derives (.at p) left.tokens left.tree)
      (behind : Derives (.at q) right.tokens right.tree) :
      Derives (.at p) (left.tokens ++ operator :: right.tokens)
        (operationNode kind left.tree operator right.tree)
  | not {operator : Token} {argument : Part} (keyword : operator.isMark "not" = true)
      (behind : Derives (.at .not) argument.tokens argument.tree) :
      Derives (.at .not) (operator :: argument.tokens)
        (prefixedNode "not_operator" operator.leaf argument.tree)
  | comparison {chain : Chain Part} (some_more : chain.more ≠ [])
      (level : ∀ operator ∈ chain.separators, operator.level? = some .comparison)
      (operands : ∀ part ∈ chain.items, Derives (.at .sum) part.tokens part.tree) :
      Derives (.at .comparison) (chain.map Part.tokens).tokens (comparisonNode (chain.map Part.tree))
  | negation {operator : Token} {argument : Part} (sign : operator.isMark "-" = true)
      (behind : Derives (.at .unary) argument.tokens argument.tree) :
      Derives (.at .unary) (operator :: argument.tokens)
        (prefixedNode "unary_operator" (operator.leaf.inField "operator") argument.tree)
  | power {base exponent : Part} {operator : Token} (level : operator.level? = some .power)
      (before : Derives (.at .atom) base.tokens base.tree)
      (behind : Derives (.at .unary) exponent.tokens exponent.tree) :
      Derives (.at .power) (base.tokens ++ operator :: exponent.tokens)
        (operationNode "binary_operator" base.tree operator exponent.tree)
  | operand {token : Token} (isOperand : token.isOperand = true) :
      Derives (.at .atom) [token] token.leaf
  | group {opening closing : Token} {inside : Part} (opens : opening.isMark "(" = true)
      (closes : closing.isMark ")" = true) (inner : Derives (.at .or) inside.tokens inside.tree) :
      Derives (.at .atom) (opening :: (inside.tokens ++ [closing]))
        (bracketedNode "parenthesized_expression" opening [inside.tree] closing)
  | singleton {opening comma closing : Token} {inside : Part} (opens : opening.isMark "(" = true)
      (separates : comma.isMark "," = true) (closes : closing.isMark ")" = true)
      (inner : Derives (.at .or) inside.tokens inside.tree) :
      Derives (.at .atom) (opening :: (inside.tokens ++ [comma, closing]))
        (bracketedNode "tuple" opening [inside.tree, comma.leaf] closing)
  | tuple {opening closing : Token} {items : Option (Chain Part)} (opens : opening.isMark "(" = true)
      (closes : closing.isMark ")" = true) (some_more : ∀ chain ∈ items, chain.more ≠ [])
      (separates : ∀ chain ∈ items, ∀ comma ∈ chain.separators, comma.isMark "," = true)
      (inner : ∀ chain ∈ items, ∀ part ∈ chain.items, Derives (.at .or) part.tokens part.tree) :
      Derives (.at .atom) (opening :: (itemTokens items ++ [closing]))
        (bracketedNode "tuple" opening (itemNodes (items.map (·.map Part.tree))) closing)
  | call {function : Part} {opening closing : Token} {arguments : Option (Chain Part)}
      (opens : opening.isMark "(" = true) (closes : closing.isMark ")" = true)
      (before : Derives (.at .atom) function.tokens function.tree)
      (separates : ∀ chain ∈ arguments, ∀ comma ∈ chain.separators, comma.isMark "," = true)
      (inner : ∀ chain ∈ arguments, ∀ part ∈ chain.items, Derives (.at .or) part.tokens part.tree) :
      Derives (.at .atom) (function.tokens ++ opening :: (itemTokens arguments ++ [closing]))
        (callNode function.tree opening (arguments.map (·.map Part.tree)) closing)
  | subscript {base : Part} {opening closing : Token} {indices : Chain Part}
      (opens : opening.isMark "[" = true) (closes : closing.isMark "]" = true)
      (before : Derives (.at .atom) base.tokens base.tree)
      (separates : ∀ comma ∈ indices.separators, comma.isMark "," = true)
      (inner : ∀ part ∈ indices.items, Derives .index part.tokens part.tree) :
      Derives (.at .atom)
        (base.tokens ++ opening :: ((indices.map Part.tokens).tokens ++ [closing]))
        (subscriptNode base.tree opening (indices.map Part.tree) closing)
  | attributeAccess {object : Part} {dot name : Token} (separates : dot.isMark "." = true)
      (isName : name.kind = .name) (before : Derives (.at .atom) object.tokens object.tree) :
      Derives (.at .atom) (object.tokens ++ [dot, name]) (attributeNode object.tree dot name)
  | element {tokens : List Token} {tree : RawTree} (inner : Derives (.at .or) tokens tree) :
      Derives .index tokens tree
  | slice {start stop : Option Part} {colon : Token} {step : Option (Token × Option Part)}
      (separates : colon.isMark ":" = true)
      (separates' : ∀ link ∈ step, link.1.isMark ":" = true)
      (first : ∀ part ∈ start, Derives (.at .or) part.tokens part.tree)
      (second : ∀ part ∈ stop, Derives (.at .or) part.tokens part.tree)
      (third : ∀ link ∈ step, ∀ part ∈ link.2, Derives (.at .or) part.tokens part.tree) :
      Derives .index
        (Part.optionalTokens start ++ colon :: (Part.optionalTokens stop ++
          (step.map fun link => link.1 :: Part.optionalTokens link.2).getD []))
        (sliceNode (start.map Part.tree) colon (stop.map Part.tree)
          (step.map fun link => (link.1, link.2.map Part.tree)))

/-- A text is an expression with the given tree. -/
def Parses (alphabet : Alphabet) (text : String) (tree : RawTree) : Prop :=
  ∃ tokens, Lexes alphabet 0 text.toList tokens ∧ Derives (.at .or) tokens tree

end Grammar

end NumericPython
