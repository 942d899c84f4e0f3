import NumericPython.Layout.Convert
import NumericPython.Proofs.Layout.HoistingOrder
import NumericPython.Proofs.Text.Rows

set_option autoImplicit false

namespace NumericPython

theorem clampOffset_toNat_eq (n : Nat) : (clampOffset n).toNat = min n (UInt32.size - 1) := by
  by_cases small : n < UInt32.size
  · rw [clampOffset_toNat small]
    omega
  · have largest : (UInt32.ofNat (UInt32.size - 1)).toNat = UInt32.size - 1 := by decide
    rw [clampOffset, if_neg small, largest]
    omega

namespace Layout

open NumericPython.Tree

variable {source : Source}

def Clear (source : Source) (first low : Nat) : Prop :=
  -- No row from `first` on starts in front of `low`.
  ∀ last, (last = source.textRows ∨ ∃ offset, last = source.rowAt offset) →
    ∀ x ∈ source.blankStarts first last, low ≤ x

theorem Clear.of_rowAt_lt {first low : Nat} (later : source.rowAt low < first) :
    Clear source first low :=
  fun _ _ _ member => source.offset_le_blankStarts later member

theorem Clear.zero (first : Nat) : Clear source first 0 :=
  fun _ _ _ _ => Nat.zero_le _

theorem Clear.after (tree : RawTree) : Clear source (lastRow source tree + 1) tree.stop := by
  by_cases feed : (source.startsRow tree.stop && decide (source.rowAt tree.start < source.rowAt
    tree.stop)) = true
  · simp only [Bool.and_eq_true, decide_eq_true_eq] at feed
    have some_row : 0 < source.rowAt tree.stop := by omega
    have row : lastRow source tree + 1 = source.rowAt tree.stop := by
      simp only [lastRow, feed, decide_true, Bool.and_self, if_true]
      omega
    rw [row]
    rintro last (rfl | ⟨offset, rfl⟩) x member
    · exact source.stop_le_blankStarts_textRows feed.1 some_row member
    · by_cases ends : Text.dropBytes tree.stop source.chars = []
      · -- Behind the end of the text there is no row left.
        obtain ⟨i, _, _, _⟩ := source.start_of_mem_blankStarts member
        have := source.rowAt_le_of_dropBytes ends offset
        omega
      · exact source.stop_le_blankStarts feed.1 some_row ends member
  · refine Clear.of_rowAt_lt ?_
    simp only [lastRow, feed, Bool.false_eq_true, if_false]
    omega

def IsBlankLine (tree : Tree) : Prop :=
  tree.kind = .blankLine ∧ tree.children = []

theorem place_blankLine (start : Nat) : (blankLine start).place = min start (UInt32.size - 1) :=
  clampOffset_toNat_eq start

theorem IsBlankLine.filler {tree : Tree} (blank : IsBlankLine tree) : IsFiller tree :=
  ⟨.inl blank.1, blank.2⟩

theorem isBlankLine_blankLines {first last : Nat} {tree : Tree}
    (member : tree ∈ blankLines source first last) : IsBlankLine tree := by
  obtain ⟨start, _, rfl⟩ := List.mem_map.1 member
  exact ⟨rfl, rfl⟩

theorem inOrder_blankLines (first last : Nat) : InOrder (blankLines source first last) := by
  rw [inOrder_iff, blankLines, List.pairwise_map]
  refine (source.blankStarts_sorted first last).imp fun before => ?_
  rw [place_blankLine, place_blankLine]
  omega

/-- Where a node of a level stands: its rows are those of its text, it starts at `low` or later, and
nothing of it is read behind `stop`. -/
structure Sits (source : Source) (low stop : Nat) (node : Placed) : Prop where
  start : low ≤ node.tree.place
  bound : node.tree.place ≤ stop
  small : stop < UInt32.size
  firstRow : node.firstRow = source.rowAt node.tree.place
  clear : Clear source (node.lastRow + 1) stop
  upper : ∀ x ∈ node.tree.reading true, x.place ≤ stop
  lower : node.tree.kind ≠ .block → ∀ x ∈ node.tree.reading true, node.tree.place ≤ x.place

/-- The nodes of a level from `low` on. -/
inductive Spaced (source : Source) (high : Nat) : Nat → List Placed → Prop
  | nil {low : Nat} (bound : low ≤ high) : Spaced source high low []
  | cons {low stop : Nat} {node : Placed} {rest : List Placed} (sits : Sits source low stop node)
      (others : Spaced source high stop rest) : Spaced source high low (node :: rest)

def Precedes (a b : Tree) : Prop :=
  -- What is read in the first tree stands at the places of the second one or before them.
  ∀ x ∈ a.reading true, ∀ y ∈ b.reading true, x.place ≤ y.place

/-- Blank rows are not counted both in front of a block and in the block. -/
def RowsOnce (trees : List Tree) : Prop :=
  trees.Pairwise fun a b => b.kind = .block → Precedes a b

theorem inOrder_readings_iff {trees : List Tree} :
    InOrder (readings true trees) ↔
      (∀ tree ∈ trees, InOrder (tree.reading true)) ∧ trees.Pairwise Precedes := by
  induction trees with
  | nil => simp [InOrder]
  | cons tree rest ih =>
      have first : (∀ x ∈ tree.reading true, ∀ y ∈ readings true rest, x.place ≤ y.place) ↔
          ∀ b ∈ rest, Precedes tree b := by
        simp only [mem_readings, Precedes]
        constructor
        · intro all b member x hx y hy
          exact all x hx y ⟨b, member, hy⟩
        · rintro all x hx y ⟨b, member, hy⟩
          exact all b member x hx y hy
      rw [readings_cons, inOrder_append, ih, first, List.pairwise_cons]
      simp only [List.mem_cons, forall_eq_or_imp]
      constructor
      · rintro ⟨here, ⟨inside, pairs⟩, before⟩
        exact ⟨⟨here, inside⟩, before, pairs⟩
      · rintro ⟨⟨here, inside⟩, before, pairs⟩
        exact ⟨here, ⟨inside, pairs⟩, before⟩

def rowsBetween (source : Source) : Option Nat → Option Nat → List Tree
  | some first, some last => blankLines source first last
  | _, _ => []

theorem withBlankLines_nil (finish next : Option Nat) :
    withBlankLines source finish next [] = rowsBetween source next finish := by
  cases next <;> cases finish <;> rfl

theorem withBlankLines_cons (finish next : Option Nat) (node : Placed) (rest : List Placed) :
    withBlankLines source finish next (node :: rest) =
      rowsBetween source next (some node.firstRow) ++
        node.tree :: withBlankLines source finish (some (node.lastRow + 1)) rest := by
  cases next <;> rfl

theorem isBlankLine_rowsBetween {first last : Option Nat} {tree : Tree}
    (member : tree ∈ rowsBetween source first last) : IsBlankLine tree := by
  cases first with
  | none => simp [rowsBetween] at member
  | some first =>
      cases last with
      | none => simp [rowsBetween] at member
      | some last => exact isBlankLine_blankLines member

theorem inOrder_rowsBetween (first last : Option Nat) : InOrder (rowsBetween source first last) := by
  cases first with
  | none => exact List.Pairwise.nil
  | some first =>
      cases last with
      | none => exact List.Pairwise.nil
      | some last => exact inOrder_blankLines first last

def ClearFrom (source : Source) (first : Option Nat) (low : Nat) : Prop :=
  ∀ row, first = some row → Clear source row low

def AtEnd (source : Source) (finish : Option Nat) : Prop :=
  finish = none ∨ finish = some source.textRows

theorem le_place_rowsBetween {first last : Option Nat} {low : Nat} {tree : Tree}
    (clear : ClearFrom source first low) (small : low < UInt32.size)
    (ends : AtEnd source last ∨ ∃ offset, last = some (source.rowAt offset))
    (member : tree ∈ rowsBetween source first last) : low ≤ tree.place := by
  cases first with
  | none => simp [rowsBetween] at member
  | some first =>
      cases last with
      | none => simp [rowsBetween] at member
      | some last =>
          obtain ⟨start, inside, rfl⟩ := List.mem_map.1 member
          have reached : last = source.textRows ∨ ∃ offset, last = source.rowAt offset := by
            simpa [AtEnd] using ends
          have := clear first rfl last reached start inside
          rw [place_blankLine]
          omega

theorem place_rowsBetween_le {first : Option Nat} {offset : Nat} {tree : Tree}
    (member : tree ∈ rowsBetween source first (some (source.rowAt offset))) :
    tree.place ≤ offset := by
  cases first with
  | none => simp [rowsBetween] at member
  | some first =>
      obtain ⟨start, inside, rfl⟩ := List.mem_map.1 member
      have := source.blankStarts_le_offset inside
      rw [place_blankLine]
      omega

variable {high : Nat}

theorem readings_rowsBetween (first last : Option Nat) :
    readings true (rowsBetween source first last) = rowsBetween source first last :=
  readings_fillers fun _ member => (isBlankLine_rowsBetween member).filler

theorem pairwise_rowsBetween (first last : Option Nat) :
    (rowsBetween source first last).Pairwise Precedes := by
  have order : InOrder (rowsBetween source first last) := inOrder_rowsBetween first last
  rw [← readings_rowsBetween, inOrder_readings_iff] at order
  exact order.2

theorem pairwise_withBlankLines {low : Nat} {nodes : List Placed} {finish next : Option Nat}
    (spaced : Spaced source high low nodes) (ends : AtEnd source finish)
    (clear : ClearFrom source next low) (small : low < UInt32.size) :
    (∀ tree ∈ withBlankLines source finish next nodes, tree.kind ≠ .block →
      ∀ x ∈ tree.reading true, low ≤ x.place) ∧
    (withBlankLines source finish next nodes).Pairwise fun a b => b.kind ≠ .block → Precedes a b := by
  induction spaced generalizing next with
  | nil =>
      rw [withBlankLines_nil]
      constructor
      · intro tree member _ x read
        rw [reading_filler (isBlankLine_rowsBetween member).filler, List.mem_singleton] at read
        subst read
        exact le_place_rowsBetween clear small (.inl ends) member
      · refine List.Pairwise.imp ?_ (pairwise_rowsBetween next finish)
        exact fun precedes _ => precedes
  | @cons low stop node rest sits others ih =>
      have start := sits.start
      have bound := sits.bound
      have after : ClearFrom source (some (node.lastRow + 1)) stop :=
        fun row same => by cases same; exact sits.clear
      obtain ⟨later, inner⟩ := ih after sits.small
      rw [withBlankLines_cons]
      constructor
      · intro tree member other x read
        rw [List.mem_append, List.mem_cons] at member
        -- a blank row in front of the node, the node itself, what comes after it
        rcases member with member | rfl | member
        · rw [reading_filler (isBlankLine_rowsBetween member).filler, List.mem_singleton] at read
          subst read
          exact le_place_rowsBetween clear small (.inr ⟨_, congrArg some sits.firstRow⟩) member
        · exact Nat.le_trans start (sits.lower other x read)
        · have := later tree member other x read
          omega
      · rw [List.pairwise_append, List.pairwise_cons]
        refine ⟨?_, ⟨fun b member other x first y second => ?_, inner⟩, ?_⟩
        · refine List.Pairwise.imp ?_ (pairwise_rowsBetween next (some node.firstRow))
          exact fun precedes _ => precedes
        · exact Nat.le_trans (sits.upper x first) (later b member other y second)
        · -- A blank row in front of the node is no later than the node and what comes after it.
          intro a front b member other x first y second
          rw [reading_filler (isBlankLine_rowsBetween front).filler, List.mem_singleton] at first
          subst first
          rw [sits.firstRow] at front
          have before := place_rowsBetween_le front
          rcases List.mem_cons.1 member with rfl | member
          · exact Nat.le_trans before (sits.lower other y second)
          · have := later b member other y second
            omega

theorem mem_withBlankLines {finish next : Option Nat} {nodes : List Placed} {tree : Tree}
    (member : tree ∈ withBlankLines source finish next nodes) :
    IsBlankLine tree ∨ ∃ node ∈ nodes, node.tree = tree := by
  induction nodes generalizing next with
  | nil =>
      rw [withBlankLines_nil] at member
      exact .inl (isBlankLine_rowsBetween member)
  | cons node rest ih =>
      rw [withBlankLines_cons, List.mem_append, List.mem_cons] at member
      rcases member with member | rfl | member
      · exact .inl (isBlankLine_rowsBetween member)
      · exact .inr ⟨node, .head _, rfl⟩
      · exact (ih member).imp_right fun ⟨other, inside, same⟩ => ⟨other, .tail _ inside, same⟩

theorem mem_withBlankLines_of_mem {finish next : Option Nat} {nodes : List Placed} {node : Placed}
    (member : node ∈ nodes) : node.tree ∈ withBlankLines source finish next nodes := by
  induction nodes generalizing next with
  | nil => cases member
  | cons first rest ih =>
      rw [withBlankLines_cons, List.mem_append, List.mem_cons]
      rcases List.mem_cons.1 member with rfl | member
      · exact .inr (.inl rfl)
      · exact .inr (.inr (ih member))

theorem withBlankLines_finish (finish next : Option Nat) (nodes : List Placed) :
    ∃ back, withBlankLines source finish next nodes =
      withBlankLines source none next nodes ++ back ∧ ∀ tree ∈ back, IsBlankLine tree := by
  induction nodes generalizing next with
  | nil =>
      refine ⟨rowsBetween source next finish, ?_, fun _ => isBlankLine_rowsBetween⟩
      rw [withBlankLines_nil, withBlankLines_nil]
      cases next <;> rfl
  | cons node rest ih =>
      obtain ⟨back, same, blank⟩ := ih (some (node.lastRow + 1))
      refine ⟨back, ?_, blank⟩
      rw [withBlankLines_cons, withBlankLines_cons, same, List.append_assoc, List.cons_append]

theorem rowsOnce_append {xs ys : List Tree} :
    RowsOnce (xs ++ ys) ↔
      RowsOnce xs ∧ RowsOnce ys ∧ ∀ a ∈ xs, ∀ b ∈ ys, b.kind = .block → Precedes a b :=
  List.pairwise_append

theorem not_block_of_blank {tree : Tree} (blank : IsBlankLine tree) : tree.kind ≠ .block := by
  rw [blank.1]
  decide

theorem rowsOnce_of_blank {trees : List Tree} (blank : ∀ tree ∈ trees, IsBlankLine tree) :
    RowsOnce trees :=
  List.pairwise_of_forall_mem_list fun _ _ b member block =>
    absurd block (not_block_of_blank (blank b member))

theorem Spaced.lower {low : Nat} {nodes : List Placed} (spaced : Spaced source high low nodes) :
    ∀ node ∈ nodes, node.tree.kind ≠ .block →
      ∀ x ∈ node.tree.reading true, node.tree.place ≤ x.place := by
  induction spaced with
  | nil => simp
  | cons sits others ih =>
      intro node member
      rcases List.mem_cons.1 member with rfl | member
      · exact sits.lower
      · exact ih node member

structure Leads (source : Source) (nodes : List Placed) : Prop where
  firstRow : ∀ node ∈ nodes.head?, node.firstRow = source.rowAt node.tree.place
  -- A block may start with the rows in front of it, but not with those in front of the level.
  blocks : ∀ first ∈ nodes.head?, ∀ node ∈ nodes, node.tree.kind = .block →
    ∀ x ∈ node.tree.reading true, first.tree.place ≤ x.place

theorem rowsOnce_withBlankLines (finish next : Option Nat) {nodes : List Placed}
    (leads : Leads source nodes) :
    RowsOnce (withBlankLines source finish next nodes) ↔
      RowsOnce (withBlankLines source none none nodes) := by
  obtain ⟨back, same, blank⟩ := @withBlankLines_finish source finish next nodes
  have dropFinish : RowsOnce (withBlankLines source finish next nodes) ↔
      RowsOnce (withBlankLines source none next nodes) := by
    rw [same, rowsOnce_append]
    refine ⟨fun once => once.1, fun once => ⟨once, rowsOnce_of_blank blank, ?_⟩⟩
    exact fun a _ b member block => absurd block (not_block_of_blank (blank b member))
  rw [dropFinish]
  cases nodes with
  | nil => rw [withBlankLines_nil, withBlankLines_nil]; cases next <;> rfl
  | cons node rest =>
      have front : ∀ tree ∈ rowsBetween source next (some node.firstRow), IsBlankLine tree :=
        fun _ => isBlankLine_rowsBetween
      rw [withBlankLines_cons, withBlankLines_cons none none, rowsOnce_append]
      refine ⟨fun once => once.2.1, fun once => ⟨rowsOnce_of_blank front, once, ?_⟩⟩
      intro a blank b member block x first y second
      rw [reading_filler (front a blank).filler, List.mem_singleton] at first
      subst first
      rw [leads.firstRow node rfl] at blank
      refine Nat.le_trans (place_rowsBetween_le blank) ?_
      have inside : b ∈ withBlankLines source none none (node :: rest) := by
        rwa [withBlankLines_cons]
      rcases mem_withBlankLines inside with blankLine | ⟨other, known, rfl⟩
      · exact absurd block (not_block_of_blank blankLine)
      · exact leads.blocks node rfl other known block y second

theorem inOrder_reading_true {tree : Tree}
    (lower : tree.kind ≠ .block → ∀ x ∈ tree.reading true, tree.place ≤ x.place) :
    InOrder (tree.reading true) ↔ InOrder (tree.reading false) := by
  by_cases simple : tree.kind.isSimple = true
  · have other : tree.kind ≠ .block := by
      intro block
      rw [block] at simple
      cases simple
    have split : tree.reading true = tree :: tree.reading false := by
      rw [reading_inner, reading_eq, simple]
      rfl
    rw [split, inOrder_iff, List.pairwise_cons, ← inOrder_iff]
    exact ⟨fun order => order.2, fun order => ⟨fun x member =>
      lower other x (by rw [split]; exact .tail _ member), order⟩⟩
  · rw [Bool.not_eq_true] at simple
    rw [reading_inner, reading_eq, simple]
    rfl

/-- A level with its blank lines is in order exactly if its nodes are and no row is counted twice. -/
theorem inOrder_withBlankLines_iff {low : Nat} {nodes : List Placed} {finish next : Option Nat}
    (spaced : Spaced source high low nodes) (leads : Leads source nodes)
    (ends : AtEnd source finish) (clear : ClearFrom source next low) (small : low < UInt32.size) :
    InOrder (readings true (withBlankLines source finish next nodes)) ↔
      (∀ node ∈ nodes, InOrder (node.tree.reading false)) ∧
        RowsOnce (withBlankLines source none none nodes) := by
  have others := (pairwise_withBlankLines spaced ends clear small).2
  have single : (∀ tree ∈ withBlankLines source finish next nodes, InOrder (tree.reading true)) ↔
      ∀ node ∈ nodes, InOrder (node.tree.reading false) := by
    constructor
    · intro orders node member
      rw [← inOrder_reading_true (spaced.lower node member)]
      exact orders node.tree (mem_withBlankLines_of_mem member)
    · intro orders tree member
      rcases mem_withBlankLines member with blank | ⟨node, inside, rfl⟩
      · rw [reading_filler blank.filler]
        exact List.pairwise_singleton ..
      · rw [inOrder_reading_true (spaced.lower node inside)]
        exact orders node inside
  rw [inOrder_readings_iff, single, ← rowsOnce_withBlankLines finish next leads]
  refine and_congr_right fun _ => ⟨fun all => ?_, fun once => ?_⟩
  · refine List.Pairwise.imp ?_ all
    exact fun precedes _ => precedes
  · refine List.Pairwise.imp ?_ (List.Pairwise.and once others)
    exact fun both => (Decidable.em _).elim both.1 both.2

section Body

variable {low : Nat} {nodes : List Placed} {next : Option Nat}

theorem Spaced.low_le_high (spaced : Spaced source high low nodes) : low ≤ high := by
  induction spaced with
  | nil bound => exact bound
  | cons sits others ih => exact Nat.le_trans (Nat.le_trans sits.start sits.bound) ih

theorem le_high_withBlankLines (spaced : Spaced source high low nodes) :
    ∀ x ∈ readings true (withBlankLines source none next nodes), x.place ≤ high := by
  induction spaced generalizing next with
  | nil => cases next <;> simp [withBlankLines_nil, rowsBetween]
  | @cons low stop node rest sits others ih =>
      intro x read
      have bound := sits.bound
      have inside := others.low_le_high
      rw [withBlankLines_cons, readings_append, readings_cons, List.mem_append,
        List.mem_append] at read
      rcases read with read | read | read
      · rw [readings_rowsBetween, sits.firstRow] at read
        have := place_rowsBetween_le read
        omega
      · have := sits.upper x read
        omega
      · exact ih x read

theorem low_le_withBlankLines (spaced : Spaced source high low nodes) (leads : Leads source nodes)
    (small : low < UInt32.size) :
    ∀ x ∈ readings true (withBlankLines source none none nodes), low ≤ x.place := by
  intro x read
  obtain ⟨tree, member, inTree⟩ := mem_readings.1 read
  by_cases block : tree.kind = .block
  · rcases mem_withBlankLines member with blank | ⟨node, inside, rfl⟩
    · exact absurd block (not_block_of_blank blank)
    · cases spaced with
      | nil => cases inside
      | cons sits others =>
          exact Nat.le_trans sits.start (leads.blocks _ rfl node inside block x inTree)
  · have clear : ClearFrom source none low := by simp [ClearFrom]
    exact (pairwise_withBlankLines spaced (.inl rfl) clear small).1 tree member block x inTree

theorem withBlankLines_front (next : Option Nat) (nodes : List Placed) :
    withBlankLines source none next nodes =
      rowsBetween source next (nodes.head?.map Placed.firstRow) ++
        withBlankLines source none none nodes := by
  cases nodes with
  | nil => cases next <;> simp [withBlankLines_nil, rowsBetween]
  | cons node rest => rw [withBlankLines_cons, withBlankLines_cons none none]; rfl

theorem settled_withBlankLines (spaced : Spaced source high low nodes)
    (leads : Leads source nodes) (small : low < UInt32.size) :
    Settled low (withBlankLines source none next nodes) :=
  ⟨_, _, withBlankLines_front next nodes, fun _ member => (isBlankLine_rowsBetween member).filler,
    low_le_withBlankLines spaced leads small⟩

theorem between_withBlankLines {opener : Nat} (spaced : Spaced source high low nodes)
    (leads : Leads source nodes) (small : low < UInt32.size)
    (clear : ClearFrom source next opener) (openers : opener ≤ low) :
    Between opener high (readings true (withBlankLines source none next nodes)) := by
  intro x read
  refine ⟨?_, le_high_withBlankLines spaced x read⟩
  rw [withBlankLines_front, readings_append, readings_rowsBetween, List.mem_append] at read
  rcases read with read | read
  · cases nodes with
    | nil => cases next <;> simp [rowsBetween] at read
    | cons node rest =>
        have row := leads.firstRow node rfl
        exact le_place_rowsBetween clear (by omega) (.inr ⟨_, congrArg some row⟩) read
  · exact Nat.le_trans openers (low_le_withBlankLines spaced leads small x read)

end Body

end Layout

end NumericPython
