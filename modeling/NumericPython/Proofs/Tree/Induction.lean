import NumericPython.Tree.Basic

set_option autoImplicit false

namespace NumericPython.Tree

theorem induction {motive : Tree → Prop}
    (step : ∀ tree, (∀ child ∈ tree.children, motive child) → motive tree) :
    ∀ tree, motive tree
  | ⟨kind, span, text, field, children⟩ =>
    step ⟨kind, span, text, field, children⟩ fun child _ => induction step child

inductive Within : Tree → Tree → Prop
  | self (tree : Tree) : Within tree tree
  | under {tree child node : Tree} (member : child ∈ tree.children) (within : Within child node) :
      Within tree node

end NumericPython.Tree
