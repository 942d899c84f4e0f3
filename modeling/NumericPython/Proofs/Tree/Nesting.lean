import NumericPython.Tree.Kind
import NumericPython.Tree.Raw

set_option autoImplicit false

namespace NumericPython

namespace RawTree

theorem induction {motive : RawTree → Prop}
    (step : ∀ tree, (∀ child ∈ tree.children, motive child) → motive tree) :
    ∀ tree, motive tree
  | ⟨kind, field, start, stop, isNamed, isError, isMissing, children⟩ =>
    step ⟨kind, field, start, stop, isNamed, isError, isMissing, children⟩
      fun child _ => induction step child

def treeKind (tree : RawTree) : Kind :=
  if tree.isNamed then Kind.ofGrammar tree.kind else .token

inductive Within : RawTree → RawTree → Prop
  | self (tree : RawTree) : Within tree tree
  | under {tree child node : RawTree} (member : child ∈ tree.children) (within : Within child node) :
      Within tree node

/-- A node and the nodes below it that the concrete tree keeps. -/
inductive Kept : RawTree → RawTree → Prop
  | self (tree : RawTree) : Kept tree tree
  | under {tree child node : RawTree} (inner : tree.treeKind.isLeaf = false)
      (member : child ∈ tree.children) (kept : Kept child node) : Kept tree node

theorem Within.trans {tree node lower : RawTree} (within : tree.Within node)
    (below : node.Within lower) : tree.Within lower := by
  induction within with
  | self => exact below
  | under member _ ih => exact .under member (ih below)

theorem Kept.within {tree node : RawTree} (kept : tree.Kept node) : tree.Within node := by
  induction kept with
  | self => exact .self _
  | under _ member _ ih => exact .under member ih

/-- Siblings that follow one another between two offsets. -/
def Siblings (low high : Nat) : List RawTree → Prop
  | [] => low ≤ high
  | tree :: rest => low ≤ tree.start ∧ tree.start ≤ tree.stop ∧ Siblings tree.stop high rest

def Nested (tree : RawTree) : Prop :=
  tree.start ≤ tree.stop ∧
    ∀ node, tree.Within node → Siblings node.start node.stop node.children

theorem Siblings.widen {low low' high : Nat} {trees : List RawTree}
    (siblings : Siblings low high trees) (lower : low' ≤ low) : Siblings low' high trees := by
  cases trees with
  | nil => exact Nat.le_trans lower siblings
  | cons tree rest => exact ⟨Nat.le_trans lower siblings.1, siblings.2⟩

theorem Siblings.low_le_high {low high : Nat} {trees : List RawTree}
    (siblings : Siblings low high trees) : low ≤ high := by
  induction trees generalizing low with
  | nil => exact siblings
  | cons tree rest ih =>
      obtain ⟨start, bound, others⟩ := siblings
      exact Nat.le_trans (Nat.le_trans start bound) (ih others)

theorem Siblings.inside {low high : Nat} {trees : List RawTree}
    (siblings : Siblings low high trees) :
    ∀ tree ∈ trees, low ≤ tree.start ∧ tree.start ≤ tree.stop ∧ tree.stop ≤ high := by
  induction trees generalizing low with
  | nil => simp
  | cons first rest ih =>
      obtain ⟨start, bound, others⟩ := siblings
      intro tree member
      rcases List.mem_cons.1 member with rfl | member
      · exact ⟨start, bound, others.low_le_high⟩
      · obtain ⟨start', bound', inside⟩ := ih others tree member
        exact ⟨by omega, bound', inside⟩

theorem Nested.child {tree child : RawTree} (nested : tree.Nested)
    (member : child ∈ tree.children) : child.Nested :=
  ⟨((nested.2 tree (.self tree)).inside child member).2.1,
    fun node within => nested.2 node (.under member within)⟩

mutual

def all (p : RawTree → Bool) : RawTree → Bool
  | ⟨kind, field, start, stop, isNamed, isError, isMissing, children⟩ =>
    p ⟨kind, field, start, stop, isNamed, isError, isMissing, children⟩ && allOf p children

def allOf (p : RawTree → Bool) : List RawTree → Bool
  | [] => true
  | tree :: rest => tree.all p && allOf p rest

end

theorem allOf_iff {p : RawTree → Bool} {trees : List RawTree} :
    allOf p trees = true ↔ ∀ tree ∈ trees, tree.all p = true := by
  induction trees with
  | nil => simp [allOf]
  | cons tree rest ih => simp [allOf, ih]

theorem all_iff {p : RawTree → Bool} {tree : RawTree} :
    tree.all p = true ↔ ∀ node, tree.Within node → p node = true := by
  induction tree using RawTree.induction with
  | step tree ih =>
      have split : tree.all p = (p tree && allOf p tree.children) := by
        cases tree
        rw [all]
      rw [split, Bool.and_eq_true, allOf_iff]
      constructor
      · rintro ⟨self, below⟩ node within
        cases within with
        | self => exact self
        | under member within => exact (ih _ member).1 (below _ member) node within
      · exact fun every => ⟨every tree (.self tree), fun child member =>
          (ih child member).2 fun node within => every node (.under member within)⟩

instance {p : RawTree → Prop} [DecidablePred p] {tree : RawTree} :
    Decidable (∀ node, tree.Within node → p node) :=
  decidable_of_iff (tree.all (decide <| p ·) = true) (by simp [all_iff])

instance decidableSiblings (low high : Nat) : (trees : List RawTree) →
    Decidable (Siblings low high trees)
  | [] => inferInstanceAs (Decidable (low ≤ high))
  | tree :: rest =>
    have := decidableSiblings tree.stop high rest
    inferInstanceAs (Decidable (low ≤ tree.start ∧ tree.start ≤ tree.stop ∧
      Siblings tree.stop high rest))

instance {tree : RawTree} : Decidable tree.Nested :=
  inferInstanceAs (Decidable (tree.start ≤ tree.stop ∧
    ∀ node, tree.Within node → Siblings node.start node.stop node.children))

theorem kept_iff {tree : RawTree} {p : RawTree → Prop} :
    (∀ node, tree.Kept node → p node) ↔
      p tree ∧ (tree.treeKind.isLeaf = false → ∀ child ∈ tree.children,
        ∀ node, child.Kept node → p node) := by
  constructor
  · exact fun all => ⟨all tree (.self tree), fun inner child member node kept =>
      all node (.under inner member kept)⟩
  · rintro ⟨self, below⟩ node kept
    cases kept with
    | self => exact self
    | under inner member kept => exact below inner _ member node kept

end RawTree

namespace Kind

theorem ofGrammar_comment {name : String} (same : ofGrammar name = comment) :
    name = "comment" := by
  unfold ofGrammar at same
  split at same
  · cases same
  · cases same
  · cases same
  · rcases found : ofGrammarNamed.find? (·.name == name) with _ | first
    · rw [found, Option.getD_none] at same
      cases same
    · have named := List.find?_some found
      rw [found, Option.getD_some] at same
      rw [same] at named
      exact (eq_of_beq named).symm

end Kind

namespace RawTree

theorem treeKind_ne_comment {tree : RawTree} (other : tree.isComment = false) :
    tree.treeKind ≠ .comment := by
  intro same
  rw [treeKind] at same
  split at same
  · rw [isComment, Kind.ofGrammar_comment same] at other
    cases other
  · cases same

theorem treeKind_of_isComment {tree : RawTree} (comment : tree.isComment = true) :
    tree.treeKind = .comment ∨ tree.treeKind = .token := by
  rw [treeKind]
  split
  · have name : tree.kind = "comment" := eq_of_beq comment
    rw [name]
    exact .inl (by decide)
  · exact .inr rfl

theorem isLeaf_of_isComment {tree : RawTree} (comment : tree.isComment = true) :
    tree.treeKind.isLeaf = true := by
  rcases treeKind_of_isComment comment with kind | kind <;> rw [kind] <;> rfl

end RawTree

end NumericPython
