import NumericPython.Layout.Comments

set_option autoImplicit false

namespace NumericPython

def Kind.isSimple (kind : Kind) : Bool :=
  !kind.isCompound && kind != .token && kind != .block

def Kind.holdsStatements (kind : Kind) : Bool :=
  kind == .root || kind == .block

namespace Tree

mutual

/-- The reading of a tree that itself stands in a module or a block, or does not. -/
def reading (stands : Bool) : Tree → List Tree
  | ⟨kind, span, text, field, children⟩ =>
    (if stands && kind.isSimple then [⟨kind, span, text, field, children⟩] else []) ++
      readings kind.holdsStatements children

def readings (stands : Bool) : List Tree → List Tree
  | [] => []
  | tree :: rest => reading stands tree ++ readings stands rest

end

def place (tree : Tree) : Nat :=
  tree.span.start.toNat

def InOrder (nodes : List Tree) : Prop :=
  nodes.Pairwise fun a b => a.span.start ≤ b.span.start

instance (nodes : List Tree) : Decidable (InOrder nodes) :=
  inferInstanceAs (Decidable (nodes.Pairwise _))

def Between (low high : Nat) (nodes : List Tree) : Prop :=
  ∀ node ∈ nodes, low ≤ node.place ∧ node.place ≤ high

theorem reading_eq (stands : Bool) (tree : Tree) :
    tree.reading stands =
      (if stands && tree.kind.isSimple then [tree] else []) ++
        readings tree.kind.holdsStatements tree.children := by
  cases tree
  rw [reading]

theorem reading_inner (tree : Tree) :
    tree.reading false = readings tree.kind.holdsStatements tree.children := by
  simp [reading_eq]

@[simp] theorem readings_nil (stands : Bool) : readings stands [] = [] := rfl

@[simp] theorem readings_cons (stands : Bool) (tree : Tree) (rest : List Tree) :
    readings stands (tree :: rest) = tree.reading stands ++ readings stands rest := rfl

@[simp] theorem readings_append (stands : Bool) (xs ys : List Tree) :
    readings stands (xs ++ ys) = readings stands xs ++ readings stands ys := by
  induction xs with
  | nil => rfl
  | cons x xs ih => simp [ih]

theorem readings_sublist {stands : Bool} {xs ys : List Tree} (sub : List.Sublist xs ys) :
    List.Sublist (readings stands xs) (readings stands ys) := by
  induction sub with
  | slnil => exact List.Sublist.refl _
  | cons y _ ih => exact ih.trans (List.sublist_append_right ..)
  | cons_cons x _ ih => exact (List.Sublist.refl _).append ih

theorem mem_readings {stands : Bool} {node : Tree} {trees : List Tree} :
    node ∈ readings stands trees ↔ ∃ tree ∈ trees, node ∈ tree.reading stands := by
  induction trees with
  | nil => simp
  | cons tree rest ih => simp [ih]

theorem inOrder_iff {nodes : List Tree} :
    InOrder nodes ↔ nodes.Pairwise fun a b => a.place ≤ b.place := by
  simp only [InOrder, place, UInt32.le_iff_toNat_le]

theorem inOrder_append {xs ys : List Tree} :
    InOrder (xs ++ ys) ↔
      InOrder xs ∧ InOrder ys ∧ ∀ x ∈ xs, ∀ y ∈ ys, x.place ≤ y.place := by
  simp only [inOrder_iff, List.pairwise_append]

theorem InOrder.sublist {xs ys : List Tree} (order : InOrder ys) (sub : List.Sublist xs ys) :
    InOrder xs :=
  List.Pairwise.sublist sub order

theorem Between.widen {low high low' high' : Nat} {nodes : List Tree}
    (between : Between low high nodes) (lower : low' ≤ low) (upper : high ≤ high') :
    Between low' high' nodes :=
  fun node member =>
    ⟨Nat.le_trans lower (between node member).1, Nat.le_trans (between node member).2 upper⟩

@[simp] theorem between_nil (low high : Nat) : Between low high [] := by
  simp [Between]

@[simp] theorem between_append {low high : Nat} {xs ys : List Tree} :
    Between low high (xs ++ ys) ↔ Between low high xs ∧ Between low high ys := by
  simp only [Between, List.mem_append, or_imp, forall_and]
  exact and_and_and_comm

theorem inOrder_append_of_between {low mid high : Nat} {xs ys : List Tree}
    (left : Between low mid xs) (right : Between mid high ys) :
    InOrder (xs ++ ys) ↔ InOrder xs ∧ InOrder ys := by
  rw [inOrder_append]
  constructor
  · exact fun order => ⟨order.1, order.2.1⟩
  · exact fun order =>
      ⟨order.1, order.2, fun x hx y hy => Nat.le_trans (left x hx).2 (right y hy).1⟩

end Tree

end NumericPython
