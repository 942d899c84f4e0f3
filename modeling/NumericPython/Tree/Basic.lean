import NumericPython.Span
import NumericPython.Tree.Kind

set_option autoImplicit false

namespace NumericPython

structure Tree where
  kind : Kind
  span : Span
  text : String
  field : Option String
  children : List Tree
deriving Inhabited

namespace Tree

def pragmaMarker : String := "#$"

def leaf (kind : Kind) (span : Span) (text : String) (field : Option String) : Tree :=
  ⟨kind, span, text, field, []⟩

def isToken (tree : Tree) : Bool :=
  tree.kind == .token

def fills (tree : Tree) (field : String) : Bool :=
  tree.field == some field

def namedChildren (tree : Tree) : List Tree :=
  tree.children.filter (!·.isToken)

def tokens (tree : Tree) : List Tree :=
  tree.children.filter (·.isToken)

def hasToken (tree : Tree) (text : String) : Bool :=
  tree.tokens.any (·.text == text)

def child? (tree : Tree) (field : String) : Option Tree :=
  tree.children.find? (·.fills field)

def childrenBy (tree : Tree) (field : String) : List Tree :=
  tree.children.filter (·.fills field)

def isPragma (tree : Tree) : Bool :=
  tree.kind == .comment && pragmaMarker.toList.isPrefixOf tree.text.toList

end Tree

end NumericPython
