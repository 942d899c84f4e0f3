import NumericPython.Proofs.Grammar.Chains
import NumericPython.Proofs.Layout.Conversion
import NumericPython.Proofs.Lowering.Children

set_option autoImplicit false

namespace NumericPython

namespace RawTree

variable {source : Source} {opener : Option Nat} {tree : RawTree}

def convertParts (source : Source) (opener : Option Nat) (children : List RawTree) : List Tree :=
  (convertAll source false opener children).map Layout.Placed.tree

@[simp] theorem convertParts_nil : convertParts source opener [] = [] := by
  rw [convertParts, convertAll_nil]
  rfl

theorem convertParts_cons (notComment : tree.isComment = false) (rest : List RawTree) :
    convertParts source opener (tree :: rest) =
      convert source opener tree :: convertParts source (some (source.rowAt tree.stop)) rest := by
  rw [convertParts, convertAll_cons]
  simp [notComment, convertParts, placed]

theorem convertParts_comment (isComment : tree.isComment = true) (rest : List RawTree) :
    convertParts source opener (tree :: rest) = convertParts source opener rest := by
  rw [convertParts, convertAll_cons, if_pos isComment]
  rfl

theorem mem_convertParts {children : List RawTree} {found : Tree}
    (member : found ∈ convertParts source opener children) :
    ∃ child ∈ children, ∃ opener, found = convert source opener child :=
  raw_of_mem_convertAll member

end RawTree

namespace Grammar

open RawTree Lowering

variable {source : Source}

def isPlain (kind : Kind) : Bool :=
  !kind.isLeaf && !kind.keepsComments

theorem treeKind_node {name : String} {kind : Kind} {children : List RawTree}
    (sorted : Kind.ofGrammar name = kind) : (node name children).treeKind = kind := by
  simp [treeKind, node, sorted]

theorem convert_arranged {opener : Option Nat} {name : String} {kind : Kind}
    {children : List RawTree} {field : Option String} (sorted : Kind.ofGrammar name = kind)
    (inner : kind.isLeaf = false) :
    ∃ span text, convert source opener { node name children with field := field } =
      ⟨kind, span, text, field, Layout.arrange source kind opener
        (convertAll source kind.keepsComments none children)⟩ := by
  have sort : ({ node name children with field := field } : RawTree).treeKind = kind :=
    @treeKind_node name kind children sorted
  refine ⟨.ofRange (node name children).start (node name children).stop,
    source.slice (node name children).start (node name children).stop, ?_⟩
  rw [convert_eq, sort, inner]
  rfl

theorem convert_node {source : Source} {opener : Option Nat} {name : String} {kind : Kind}
    {children : List RawTree} {field : Option String} (sorted : Kind.ofGrammar name = kind)
    (plain : isPlain kind = true) :
    ∃ span text, convert source opener { node name children with field := field } =
      ⟨kind, span, text, field, convertParts source none children⟩ := by
  simp only [isPlain, Bool.and_eq_true, Bool.not_eq_true'] at plain
  have other : kind.isCompound = false ∧ kind.holdsStatements = false := by
    cases kind <;> first | exact ⟨rfl, rfl⟩ | cases plain.2
  obtain ⟨span, text, converted⟩ :=
    @convert_arranged source opener name kind children field sorted plain.1
  rw [arrange_other other.1 other.2, plain.2] at converted
  exact ⟨span, text, converted⟩

theorem isComment_of_treeKind {tree : RawTree} (notToken : tree.treeKind ≠ .token)
    (notComment : tree.treeKind ≠ .comment) : tree.isComment = false := by
  refine Bool.eq_false_iff.2 fun isComment => ?_
  have name : tree.kind = "comment" := by simpa [RawTree.isComment] using isComment
  cases named : tree.isNamed with
  | true => exact notComment (by rw [treeKind, named, if_pos rfl, name]; rfl)
  | false => exact notToken (by rw [treeKind, named]; rfl)

section Leaves

variable {token : Token}

def Token.Holds (source : Source) (token : Token) : Prop :=
  source.slice token.start token.stop = String.ofList token.text

def Token.IsPunctuation (token : Token) : Prop :=
  token.leaf.treeKind = .token ∧ token.leaf.isComment = false

theorem Token.punctuation_of_isMark {token : Token} {text : String}
    (isMark : token.isMark text = true)
    (other : constants.lookup text.toList = none ∧ text ≠ "comment") : token.IsPunctuation := by
  rw [Token.eq_of_isMark isMark]
  constructor
  · simp [treeKind, Token.leaf, Token.isOperand, other.1]
  · simp [isComment, Token.leaf, Token.nodeName, other]

theorem comma_punctuation {comma : Token} (separates : comma.isMark "," = true) :
    comma.IsPunctuation :=
  Token.punctuation_of_isMark separates (by decide)

theorem convert_leaf_text {text : String} {opener : Option Nat}
    {field : Option String} (isMark : token.isMark text = true) (holds : token.Holds source) :
    (convert source opener { token.leaf with field := field }).text = text := by
  have chars : token.text = text.toList := by
    rw [Token.eq_of_isMark isMark]
  have same : source.slice token.start token.stop = String.ofList token.text := holds
  rw [convert_text]
  simp only [Token.leaf, same, chars, String.ofList_toList]

theorem convert_leaf {kind : Kind} {field : Option String} {opener : Option Nat}
    (holds : token.Holds source) (sorted : token.leaf.treeKind = kind)
    (isLeaf : kind.isLeaf = true) :
    ∃ span, convert source opener { token.leaf with field := field } =
      ⟨kind, span, String.ofList token.text, field, []⟩ := by
  have sort : ({ token.leaf with field := field } : RawTree).treeKind = kind := sorted
  have textHere : source.slice token.start token.stop = String.ofList token.text := holds
  refine ⟨.ofRange token.start token.stop, ?_⟩
  rw [convert_eq, sort, isLeaf, if_pos rfl, ← textHere]
  rfl

def TokenKind.leafKind : TokenKind → Kind
  | .name => .identifier
  | .integer => .integer
  | .float => .float
  | .string => .string
  | .mark => .token

theorem treeKind_leaf {sort : TokenKind} (isSort : token.kind = sort) (notMark : sort ≠ .mark) :
    token.leaf.treeKind = sort.leafKind := by
  obtain ⟨sort', text, start⟩ := token
  cases isSort
  cases sort' <;> first | rfl | contradiction

end Leaves

@[simp] theorem ok_bind {ε α β : Type} (a : α) (f : α → Except ε β) :
    (Except.ok a >>= f) = f a := rfl

section Fields

variable {token : Token} {tree : RawTree} {opener : Option Nat} {children : List RawTree}
  {field : String}

@[simp] theorem inField_field : (tree.inField field).field = some field := rfl

@[simp] theorem leaf_field : token.leaf.field = none := rfl

@[simp] theorem inField_isComment : (tree.inField field).isComment = tree.isComment := rfl

@[simp] theorem inField_treeKind : (tree.inField field).treeKind = tree.treeKind := rfl

theorem convert_fills (field : String) :
    (convert source opener tree).fills field = (tree.field == some field) := by
  rw [Tree.fills, convert_field]

theorem convert_isToken : (convert source opener tree).isToken = (tree.treeKind == .token) := by
  rw [Tree.isToken, convert_kind]

theorem fills_leaf (field : String) : (convert source opener token.leaf).fills field = false :=
  convert_fills field

theorem isToken_leaf (punctuation : token.IsPunctuation) :
    (convert source opener token.leaf).isToken = true := by
  rw [convert_isToken, punctuation.1]
  rfl

theorem leaf_unnamed (punctuation : token.IsPunctuation) (opener : Option Nat) :
    (!(convert source opener token.leaf).isToken) = false := by
  rw [convert_isToken, punctuation.1]
  rfl

theorem parts_free (free : ∀ child ∈ children, child.field ≠ some field) :
    ∀ found ∈ convertParts source opener children, found.fills field = false := by
  intro found member
  obtain ⟨child, inside, opener, rfl⟩ := mem_convertParts member
  rw [convert_fills]
  simpa using free child inside

theorem find_parts (source : Source) (found : children.find? (·.field == some field) = some tree)
    (notComment : tree.isComment = false) (opener : Option Nat) :
    ∃ opener', (convertParts source opener children).find? (·.fills field) =
      some (convert source opener' tree) := by
  induction children generalizing opener with
  | nil => cases found
  | cons child rest ih =>
      rw [List.find?_cons] at found
      cases fills : child.field == some field with
      | true =>
          rw [fills] at found
          cases found
          exact ⟨opener, by rw [convertParts_cons notComment, List.find?_cons, convert_fills, fills]⟩
      | false =>
          rw [fills] at found
          cases comment : child.isComment with
          | true =>
              rw [convertParts_comment comment]
              exact ih found opener
          | false =>
              rw [convertParts_cons comment, List.find?_cons, convert_fills, fills]
              exact ih found _

theorem childAt_parts (source : Source)
    (found : children.find? (·.field == some field) = some tree)
    (notComment : tree.isComment = false) (opener : Option Nat) :
    ∃ opener', ∀ kind span, childAt kind span field (convertParts source opener children) =
      .ok (convert source opener' tree) := by
  obtain ⟨opener', here⟩ := find_parts source found notComment opener
  exact ⟨opener', fun kind span => by rw [childAt, here]; rfl⟩

theorem childAt_append {kind : Kind} {span : Span} {found : Tree} {front : List Tree}
    (first : childAt kind span field front = .ok found) (rest : List Tree) :
    childAt kind span field (front ++ rest) = .ok found := by
  unfold childAt at first ⊢
  rw [List.find?_append]
  cases here : front.find? (·.fills field) with
  | none =>
      rw [here] at first
      cases first
  | some other => rwa [here] at first

theorem exprAt_append {reading : Lowered Expr} {front : List Tree}
    (first : exprAt field front = some reading) (rest : List Tree) :
    exprAt field (front ++ rest) = some reading := by
  rw [exprAt_eq, Option.map_eq_some_iff] at first
  obtain ⟨found, here, reads⟩ := first
  rw [exprAt_eq, List.find?_append, here, ← reads]
  rfl

theorem find_behind {front : List Tree} {found : Tree}
    (passed : ∀ other ∈ front, other.fills field = false) (fills : found.fills field = true)
    (rest : List Tree) : (front ++ found :: rest).find? (·.fills field) = some found := by
  have none_found : front.find? (·.fills field) = none :=
    List.find?_eq_none.2 fun other member => by simp [passed other member]
  rw [List.find?_append, none_found, Option.none_or, List.find?_cons, fills]

end Fields

section Chains

variable {α : Type}

theorem mapM_nodes {chain : Chain (RawTree × α)} {item : RawTree → RawTree} {p : Tree → Bool}
    {f : Tree → Lowered α} {rest : List RawTree} {later : List α}
    (items : ∀ entry ∈ chain.items, (item entry.1).isComment = false ∧ ∀ opener,
      p (convert source opener (item entry.1)) = true ∧
        f (convert source opener (item entry.1)) = .ok entry.2)
    (separators : ∀ token ∈ chain.separators, token.leaf.isComment = false ∧
      ∀ opener, p (convert source opener token.leaf) = false)
    (others : ∀ opener, ((convertParts source opener rest).filter p).mapM f = .ok later)
    (opener : Option Nat) :
    ((convertParts source opener ((chain.map Prod.fst).nodes item id ++ rest)).filter p).mapM f =
      .ok (chain.items.map Prod.snd ++ later) := by
  -- The items are met one by one, each with the word behind it.
  induction chain using Chain.induction generalizing opener with
  | one first =>
      obtain ⟨notComment, meaning⟩ := items first (.head _)
      have nodes : (Chain.map Prod.fst ⟨first, []⟩).nodes item id ++ rest = item first.1 :: rest := rfl
      rw [nodes, convertParts_cons notComment, List.filter_cons, if_pos (meaning _).1,
        List.mapM_cons, (meaning _).2, ok_bind, others]
      rfl
  | cons first mark chain ih =>
      rw [Chain.items_cons, List.forall_mem_cons] at items
      rw [Chain.separators_cons, List.forall_mem_cons] at separators
      obtain ⟨⟨notComment, meaning⟩, items⟩ := items
      obtain ⟨⟨notComment', passed⟩, separators⟩ := separators
      rw [Chain.map_cons, Chain.nodes_cons, List.cons_append, List.cons_append, id,
        convertParts_cons notComment, convertParts_cons notComment', List.filter_cons,
        if_pos (meaning _).1, List.filter_cons, if_neg (by simp [passed]), List.mapM_cons,
        (meaning _).2, ok_bind, ih items separators]
      rfl

theorem mapM_nodes_alone {chain : Chain (RawTree × α)} {item : RawTree → RawTree} {p : Tree → Bool}
    {f : Tree → Lowered α}
    (items : ∀ entry ∈ chain.items, (item entry.1).isComment = false ∧ ∀ opener,
      p (convert source opener (item entry.1)) = true ∧
        f (convert source opener (item entry.1)) = .ok entry.2)
    (separators : ∀ token ∈ chain.separators, token.leaf.isComment = false ∧
      ∀ opener, p (convert source opener token.leaf) = false) (opener : Option Nat) :
    ((convertParts source opener ((chain.map Prod.fst).nodes item id)).filter p).mapM f =
      .ok (chain.items.map Prod.snd) := by
  have none_behind (opener : Option Nat) :
      ((convertParts source opener []).filter p).mapM f = .ok [] := by
    rw [convertParts_nil]
    rfl
  have whole := mapM_nodes items separators none_behind opener
  rwa [List.append_nil, List.append_nil] at whole

theorem Chain.mem_nodes {chain : Chain RawTree} {item separator : RawTree → RawTree}
    {tree : RawTree} (member : tree ∈ chain.nodes item separator) :
    (∃ inner ∈ chain.items, tree = item inner) ∨
      ∃ token ∈ chain.separators, tree = separator token.leaf := by
  simp only [nodes, List.mem_cons, List.mem_flatMap, List.not_mem_nil, or_false] at member
  rcases member with rfl | ⟨link, inside, rfl | rfl⟩
  · exact .inl ⟨_, .head _, rfl⟩
  · exact .inr ⟨_, List.mem_map_of_mem inside, rfl⟩
  · exact .inl ⟨_, .tail _ (List.mem_map_of_mem inside), rfl⟩

end Chains

end Grammar

end NumericPython
