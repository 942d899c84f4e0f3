import NumericPython.Proofs.Grammar.Statements

set_option autoImplicit false

namespace NumericPython

namespace Grammar

namespace Chain

variable {α β γ : Type} {chain : Chain α} {f : α → β} {g : β → γ}

@[simp] theorem map_map : (chain.map f).map g = chain.map (fun a => g (f a)) := by
  simp [Chain.map]

@[simp] theorem items_map : (chain.map f).items = chain.items.map f := by
  simp [Chain.map, Chain.items]

@[simp] theorem separators_map : (chain.map f).separators = chain.separators := by
  simp [Chain.map, Chain.separators]

@[simp] theorem map_single {first : α} : (⟨first, []⟩ : Chain α).map f = ⟨f first, []⟩ := rfl

@[simp] theorem tokens_single {words : List Token} :
    (⟨words, []⟩ : Chain (List Token)).tokens = words := by
  simp [tokens]

def cons (first : α) (mark : Token) (chain : Chain α) : Chain α :=
  ⟨first, (mark, chain.first) :: chain.more⟩

@[elab_as_elim]
theorem induction {motive : Chain α → Prop} (one : ∀ first, motive ⟨first, []⟩)
    (cons : ∀ first mark chain, motive chain → motive (.cons first mark chain))
    (chain : Chain α) : motive chain := by
  obtain ⟨first, more⟩ := chain
  induction more generalizing first with
  | nil => exact one first
  | cons link more ih => exact cons first link.1 ⟨link.2, more⟩ (ih link.2)

variable {first : α} {mark : Token}

@[simp] theorem items_cons : (cons first mark chain).items = first :: chain.items := rfl

@[simp] theorem separators_cons : (cons first mark chain).separators = mark :: chain.separators :=
  rfl

@[simp] theorem map_cons : (cons first mark chain).map f = cons (f first) mark (chain.map f) := rfl

@[simp] theorem tokens_cons {words : List Token} {chain : Chain (List Token)} :
    (cons words mark chain).tokens = words ++ mark :: chain.tokens := by
  simp [cons, tokens]

theorem nodes_cons {tree : RawTree} {chain : Chain RawTree} {item separator : RawTree → RawTree} :
    (cons tree mark chain).nodes item separator =
      item tree :: separator mark.leaf :: chain.nodes item separator := rfl

def one (part : Part) : Chain Part :=
  ⟨part, []⟩

theorem of_mem_one {part other : Part} (member : other ∈ (Chain.one part).items) : other = part :=
  List.mem_singleton.1 member

theorem tokens_one (part : Part) : ((Chain.one part).map Part.tokens).tokens = part.tokens := by
  rw [Chain.one, map_single, tokens_single]

namespace IsSeries

variable {separator : String} {item : List Token → RawTree → Prop} {part : Part}
  {chain : Chain Part}

theorem one (here : item part.tokens part.tree) : (Chain.one part).IsSeries separator item :=
  ⟨by rintro _ ⟨⟩, fun _ member => of_mem_one member ▸ here⟩

theorem cons_iff : (Chain.cons part mark chain).IsSeries separator item ↔
    item part.tokens part.tree ∧ mark.isMark separator = true ∧ chain.IsSeries separator item := by
  constructor
  · rintro ⟨separates, items⟩
    rw [separators_cons, List.forall_mem_cons] at separates
    rw [items_cons, List.forall_mem_cons] at items
    exact ⟨items.1, separates.1, separates.2, items.2⟩
  · rintro ⟨here, isMark, separates, items⟩
    exact ⟨List.forall_mem_cons.2 ⟨isMark, separates⟩, List.forall_mem_cons.2 ⟨here, items⟩⟩

end IsSeries

end Chain

end Grammar

end NumericPython
