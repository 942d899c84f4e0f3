set_option autoImplicit false

namespace NumericPython

inductive Kind where
  | root
  | block
  | blankLine
  | comment
  | expressionStatement
  | assignment
  | augmentedAssignment
  | returnStatement
  | passStatement
  | printStatement
  | importStatement
  | importFromStatement
  | aliasedImport
  | dottedName
  | ifStatement
  | elifClause
  | elseClause
  | forStatement
  | whileStatement
  | functionDefinition
  | decoratedDefinition
  | decorator
  | classDefinition
  | parameters
  | defaultParameter
  | argumentList
  | call
  | attributeAccess
  | subscript
  | slice
  | binaryOperator
  | booleanOperator
  | comparisonOperator
  | unaryOperator
  | notOperator
  | parenthesized
  | list
  | tuple
  | expressionList
  | identifier
  | integer
  | float
  | string
  | trueLiteral
  | falseLiteral
  | noneLiteral
  | directive
  | directiveClause
  | token
  | unknown (name : String)
deriving DecidableEq, Inhabited

namespace Kind

def name : Kind → String
  | root => "module"
  | block => "block"
  | blankLine => "blank_line"
  | comment => "comment"
  | expressionStatement => "expression_statement"
  | assignment => "assignment"
  | augmentedAssignment => "augmented_assignment"
  | returnStatement => "return_statement"
  | passStatement => "pass_statement"
  | printStatement => "print_statement"
  | importStatement => "import_statement"
  | importFromStatement => "import_from_statement"
  | aliasedImport => "aliased_import"
  | dottedName => "dotted_name"
  | ifStatement => "if_statement"
  | elifClause => "elif_clause"
  | elseClause => "else_clause"
  | forStatement => "for_statement"
  | whileStatement => "while_statement"
  | functionDefinition => "function_definition"
  | decoratedDefinition => "decorated_definition"
  | decorator => "decorator"
  | classDefinition => "class_definition"
  | parameters => "parameters"
  | defaultParameter => "default_parameter"
  | argumentList => "argument_list"
  | call => "call"
  | attributeAccess => "attribute"
  | subscript => "subscript"
  | slice => "slice"
  | binaryOperator => "binary_operator"
  | booleanOperator => "boolean_operator"
  | comparisonOperator => "comparison_operator"
  | unaryOperator => "unary_operator"
  | notOperator => "not_operator"
  | parenthesized => "parenthesized_expression"
  | list => "list"
  | tuple => "tuple"
  | expressionList => "expression_list"
  | identifier => "identifier"
  | integer => "integer"
  | float => "float"
  | string => "string"
  | trueLiteral => "true"
  | falseLiteral => "false"
  | noneLiteral => "none"
  | directive => "directive"
  | directiveClause => "directive_clause"
  | token => "token"
  | unknown name => name

def ofGrammarNamed : List Kind :=
  [root, block, comment, expressionStatement, assignment, augmentedAssignment, returnStatement,
   passStatement, printStatement, importStatement, importFromStatement, aliasedImport, dottedName,
   ifStatement, elifClause, elseClause, forStatement, whileStatement, functionDefinition,
   decoratedDefinition, decorator, classDefinition, parameters, defaultParameter, argumentList,
   call, attributeAccess, subscript, slice, binaryOperator, booleanOperator, comparisonOperator,
   unaryOperator, notOperator, parenthesized, list, tuple, expressionList, identifier, integer,
   float, string, trueLiteral, falseLiteral, noneLiteral]

def synthetic : List Kind :=
  [blankLine, directive, directiveClause, token]

def ofGrammar (name : String) : Kind :=
  match name with
  | "list_pattern" => list
  | "tuple_pattern" => tuple
  | "pattern_list" => expressionList
  | other => (ofGrammarNamed.find? (·.name == other)).getD (unknown other)

def ofName (name : String) : Kind :=
  ((ofGrammarNamed ++ synthetic).find? (·.name == name)).getD (unknown name)

def isLeaf : Kind → Bool
  | identifier | integer | float | string | trueLiteral | falseLiteral | noneLiteral | comment
  | token => true
  | _ => false

def isCompound : Kind → Bool
  | ifStatement | elifClause | elseClause | forStatement | whileStatement | functionDefinition
  | classDefinition | decoratedDefinition => true
  | _ => false

def keepsComments : Kind → Bool
  | root | block => true
  | kind => kind.isCompound

theorem keepsComments_iff {kind : Kind} :
    kind.keepsComments = true ↔
      kind ∈ [root, block, ifStatement, elifClause, elseClause, forStatement, whileStatement,
        functionDefinition, classDefinition, decoratedDefinition] := by
  cases kind <;> simp [keepsComments, isCompound]

theorem not_leaf_of_keepsComments {kind : Kind} (keeps : kind.keepsComments = true) :
    kind.isLeaf = false := by
  cases kind <;> first | rfl | cases keeps

end Kind

end NumericPython
