import NumericPython.Ast.Node

set_option autoImplicit false

namespace NumericPython

inductive FeedItem where
  | tag (name : String)
  | text (text : String)
  | number (value : Int)
deriving DecidableEq

namespace FeedItem

def ofBool (b : Bool) : FeedItem :=
  number (if b then 1 else 0)

end FeedItem

namespace Feed

open FeedItem

def list {α : Type} (feed : α → List FeedItem) (xs : List α) : List FeedItem :=
  number xs.length :: xs.flatMap feed

def option {α : Type} (feed : α → List FeedItem) : Option α → List FeedItem
  | none => [number 0]
  | some x => number 1 :: feed x

def string (s : String) : List FeedItem := [text s]

def info (i : VariableInfo) : List FeedItem :=
  [tag i.dtype.name, number i.rank.toNat]

def symbol (s : Symbol) : List FeedItem :=
  text s.name :: option info s.info

def argument (a : Argument) : List FeedItem :=
  text a.name :: option info a.info

def name : Name → List FeedItem
  | .symbol s => tag "symbol" :: symbol s
  | .dotted d => tag "dotted" :: list string d.parts

mutual

def expr : Expr → List FeedItem
  | .integer v => [tag "integer", number v.toInt]
  | .float v => [tag "float", number v.word]
  | .complex v => [tag "complex", number v.word]
  | .boolean b => [tag "boolean", ofBool b]
  | .string s => [tag "string", text s]
  | .nil => [tag "nil"]
  | .symbol s => tag "symbol" :: symbol s
  | .dotted d => tag "dotted" :: list string d.parts
  | .tuple items => tag "tuple" :: number items.length :: exprs items
  | .binary op l r => tag "binary" :: tag op.name :: expr l ++ expr r
  | .unary op e => tag "unary" :: tag op.name :: expr e
  | .call callee args => tag "call" :: name callee ++ number args.length :: exprs args
  | .range a b c => tag "range" :: expr a ++ expr b ++ expr c
  | .indexed base index more =>
    tag "indexed" :: expr base ++ number (more.length + 1) :: expr index ++ exprs more
  | .slice a b c => tag "slice" :: optional a ++ optional b ++ optional c
  | .intrinsic f args => tag "intrinsic" :: tag f.name :: number args.length :: exprs args

def exprs : List Expr → List FeedItem
  | [] => []
  | e :: rest => expr e ++ exprs rest

def optional : Option Expr → List FeedItem
  | none => [number 0]
  | some e => number 1 :: expr e

end

def parameter : Parameter → List FeedItem
  | .plain a => tag "plain" :: argument a
  | .valued a e => tag "valued" :: argument a ++ expr e

def target (t : ImportTarget) : List FeedItem :=
  name t.name ++ option string t.asName

def importItem (i : Import) : List FeedItem :=
  option name i.source ++ list target i.targets

def decorators (table : Table (List Expr)) : List FeedItem :=
  list (fun (key, args) => text key :: number args.length :: exprs args)
    (table.entries.mergeSort fun a b => a.1 ≤ b.1)

mutual

def stmt : Stmt → List FeedItem
  | .assign t v => tag "assign" :: expr t ++ expr v
  | .augAssign t op v => tag "augAssign" :: expr t ++ tag op.name :: expr v
  | .returnValue v => tag "return" :: expr v
  | .print items => tag "print" :: number items.length :: exprs items
  | .comment s => [tag "comment", text s]
  | .pragma family clauses => tag "pragma" :: tag family.name :: list string clauses
  | .emptyLine => [tag "emptyLine"]
  | .pass => [tag "pass"]
  | .importNames i => tag "import" :: importItem i
  | .conditional b bs none => tag "if" :: number (bs.length + 1) :: branch b ++ branches bs
  | .conditional b bs (some body) =>
    tag "if" :: number (bs.length + 2) :: branch b ++ branches bs ++
      tag "always" :: number body.length :: stmts body
  | .always body => tag "if" :: number 1 :: tag "always" :: number body.length :: stmts body
  | .forLoop t e body => tag "for" :: expr t.toExpr ++ expr e ++ number body.length :: stmts body
  | .whileLoop e body => tag "while" :: expr e ++ number body.length :: stmts body
  | .functionDef d => tag "function" :: functionDef d
  | .classDef n attributes methods =>
    tag "class" :: text n :: list argument attributes ++
      number methods.length :: functionDefs methods
  | .expression e => tag "expression" :: expr e

def stmts : List Stmt → List FeedItem
  | [] => []
  | s :: rest => stmt s ++ stmts rest

def branch : Branch → List FeedItem
  | ⟨condition, body⟩ => tag "condition" :: expr condition ++ number body.length :: stmts body

def branches : List Branch → List FeedItem
  | [] => []
  | b :: rest => branch b ++ branches rest

def functionDef : FunctionDef → List FeedItem
  | ⟨n, arguments, results, body, localVars, globalVars, owner, hidden, kind, imports, table⟩ =>
    text n :: list parameter arguments ++ list symbol results ++
      number body.length :: stmts body ++ list symbol localVars ++ list symbol globalVars ++
      option string owner ++ ofBool hidden :: tag kind.name :: list importItem imports ++
      decorators table

def functionDefs : List FunctionDef → List FeedItem
  | [] => []
  | d :: rest => functionDef d ++ functionDefs rest

end

def foreignFunction (f : ForeignFunction) : List FeedItem :=
  functionDef f.inner ++ [text f.moduleName]

def foreignModule (m : ForeignModule) : List FeedItem :=
  text m.name :: list foreignFunction m.functions

def node : Node → List FeedItem
  | .expr e => tag "Expr" :: expr e
  | .stmt s => tag "Stmt" :: stmt s
  | .argument a => tag "Argument" :: argument a
  | .valuedArgument a e => tag "ValuedArgument" :: argument a ++ expr e
  | .block body => tag "Block" :: number body.length :: stmts body
  | .foreignFunction f => tag "ForeignFunction" :: foreignFunction f
  | .foreignModule m => tag "ForeignModule" :: foreignModule m
  | .foreignFunctionInterface w f =>
    tag "ForeignFunctionInterface" :: text w :: foreignFunction f
  | .foreignModuleInterface m => tag "ForeignModuleInterface" :: foreignModule m

end Feed

def Node.feed (node : Node) : List FeedItem :=
  Feed.node node

end NumericPython
