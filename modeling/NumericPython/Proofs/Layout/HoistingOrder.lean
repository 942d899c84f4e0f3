import NumericPython.Proofs.Layout.Hoisting

set_option autoImplicit false

namespace NumericPython.Layout

open NumericPython.Tree

def IsFiller (tree : Tree) : Prop :=
  (tree.kind = .blankLine ∨ tree.kind = .comment) ∧ tree.children = []

def Settled (low : Nat) (body : List Tree) : Prop :=
  -- Blank lines and comments come first, and from there on nothing in front of `low`.
  ∃ front rest, body = front ++ rest ∧ (∀ tree ∈ front, IsFiller tree) ∧
    ∀ node ∈ readings true rest, low ≤ node.place

section Insertion

theorem reading_filler {tree : Tree} (filler : IsFiller tree) : tree.reading true = [tree] := by
  obtain ⟨kind, leaf⟩ := filler
  rw [reading_eq, leaf]
  rcases kind with kind | kind <;> simp [kind, Kind.isSimple, Kind.isCompound]

theorem readings_fillers {nodes : List Tree} (fillers : ∀ tree ∈ nodes, IsFiller tree) :
    readings true nodes = nodes := by
  induction nodes with
  | nil => rfl
  | cons tree rest ih =>
      simp only [List.mem_cons, forall_eq_or_imp] at fillers
      rw [readings_cons, reading_filler fillers.1, ih fillers.2, List.singleton_append]

theorem mem_readings_comment {comment : Tree} {nodes : List Tree} (member : comment ∈ nodes)
    (kind : isComment comment = true) (leaf : comment.children = []) :
    comment ∈ readings true nodes := by
  have filler : IsFiller comment := ⟨.inr (by simpa [isComment] using kind), leaf⟩
  exact mem_readings.2 ⟨comment, member, by rw [reading_filler filler]; exact .head _⟩

theorem mem_insertComment {comment node : Tree} {nodes : List Tree} :
    node ∈ insertComment comment nodes ↔ node = comment ∨ node ∈ nodes := by
  induction nodes with
  | nil => simp [insertComment]
  | cons child rest ih =>
      rw [insertComment]
      split
      · simp only [List.mem_cons, ih, or_left_comm]
      · simp only [List.mem_cons]

theorem insertComment_sublist (comment : Tree) (nodes : List Tree) :
    List.Sublist nodes (insertComment comment nodes) := by
  induction nodes with
  | nil => exact List.nil_sublist _
  | cons child rest ih =>
      rw [insertComment]
      split
      · exact ih.cons_cons child
      · exact List.sublist_cons_self ..

theorem insertComments_sublist (comments nodes : List Tree) :
    List.Sublist nodes (insertComments comments nodes) := by
  induction comments generalizing nodes with
  | nil => exact List.Sublist.refl _
  | cons comment rest ih => exact (insertComment_sublist comment nodes).trans (ih _)

theorem mem_insertComments {node : Tree} {comments nodes : List Tree} :
    node ∈ insertComments comments nodes ↔ node ∈ comments ∨ node ∈ nodes := by
  induction comments generalizing nodes with
  | nil => simp [insertComments]
  | cons comment rest ih =>
      have step : insertComments (comment :: rest) nodes =
          insertComments rest (insertComment comment nodes) := rfl
      rw [step, ih, mem_insertComment, List.mem_cons]
      simp only [or_left_comm, or_assoc]

theorem inOrder_insertComment {comment : Tree} {nodes : List Tree} (order : InOrder nodes)
    (fillers : ∀ tree ∈ nodes, IsFiller tree) : InOrder (insertComment comment nodes) := by
  induction nodes with
  | nil => simp [insertComment, InOrder]
  | cons child rest ih =>
      simp only [List.mem_cons, forall_eq_or_imp] at fillers
      have kind : (child.kind == .blankLine || child.kind == .comment) = true := by
        simpa using fillers.1.1
      rw [inOrder_iff, List.pairwise_cons] at order
      rw [insertComment, kind, Bool.true_and]
      by_cases passed : child.span.start < comment.span.start
      · have before : child.place < comment.place := UInt32.lt_iff_toNat_lt.1 passed
        simp only [passed, decide_true, if_true]
        rw [inOrder_iff, List.pairwise_cons]
        refine ⟨fun node member => ?_, inOrder_iff.1 (ih (inOrder_iff.2 order.2) fillers.2)⟩
        rcases mem_insertComment.1 member with rfl | member
        · exact Nat.le_of_lt before
        · exact order.1 node member
      · have behind : comment.place ≤ child.place := by
          have := mt UInt32.lt_iff_toNat_lt.2 passed
          exact Nat.le_of_not_lt this
        simp only [passed, decide_false, Bool.false_eq_true, if_false]
        rw [inOrder_iff, List.pairwise_cons, List.pairwise_cons]
        refine ⟨fun node member => ?_, order⟩
        rcases List.mem_cons.1 member with rfl | member
        · exact behind
        · exact Nat.le_trans behind (order.1 node member)

def Bars (tree comment : Tree) : Prop :=
  -- The comment does not move past the node.
  (tree.kind == .blankLine || tree.kind == .comment) = true → ¬tree.span.start < comment.span.start

theorem bars_of_place_le {tree comment : Tree} (behind : comment.place ≤ tree.place) :
    Bars tree comment := by
  intro _
  rw [UInt32.lt_iff_toNat_lt]
  exact Nat.not_lt.2 behind

theorem insertComment_append {comment : Tree} {front rest : List Tree}
    (bars : ∀ first ∈ rest.head?, Bars first comment) :
    insertComment comment (front ++ rest) = insertComment comment front ++ rest := by
  induction front with
  | nil =>
      cases rest with
      | nil => rfl
      | cons first rest =>
          have stays := bars first rfl
          refine if_neg fun passes => ?_
          rw [Bool.and_eq_true, decide_eq_true_eq] at passes
          exact stays passes.1 passes.2
  | cons child front ih =>
      rw [List.cons_append, insertComment, insertComment, ih]
      split <;> rfl

theorem insertComments_append {comments front rest : List Tree}
    (bars : ∀ comment ∈ comments, ∀ first ∈ rest.head?, Bars first comment) :
    insertComments comments (front ++ rest) = insertComments comments front ++ rest := by
  induction comments generalizing front with
  | nil => rfl
  | cons comment others ih =>
      rw [List.forall_mem_cons] at bars
      have step (nodes : List Tree) : insertComments (comment :: others) nodes =
          insertComments others (insertComment comment nodes) := rfl
      rw [step, step, insertComment_append bars.1, ih bars.2]

theorem bars_of_readings {comment : Tree} {rest : List Tree}
    (later : ∀ node ∈ readings true rest, comment.place ≤ node.place) :
    ∀ first ∈ rest.head?, Bars first comment := by
  intro first head
  cases rest with
  | nil => cases head
  | cons child rest =>
      obtain rfl : child = first := Option.some.inj head
      intro kind
      have simple : child.kind.isSimple = true := by
        simp only [Bool.or_eq_true, beq_iff_eq] at kind
        rcases kind with kind | kind <;> rw [kind] <;> rfl
      have read : child ∈ readings true (child :: rest) := by simp [reading_eq, simple]
      exact bars_of_place_le (later child read) kind

theorem inOrder_insertComments_fillers {comments nodes : List Tree} (order : InOrder nodes)
    (fillers : ∀ tree ∈ nodes, IsFiller tree) (leaves : ∀ tree ∈ comments, IsFiller tree) :
    InOrder (insertComments comments nodes) := by
  induction comments generalizing nodes with
  | nil => exact order
  | cons comment others ih =>
      simp only [List.mem_cons, forall_eq_or_imp] at leaves
      refine ih (inOrder_insertComment order fillers) (fun tree member => ?_) leaves.2
      rcases mem_insertComment.1 member with rfl | member
      · exact leaves.1
      · exact fillers tree member

theorem mem_readings_insertComments {comments body : List Tree} {node : Tree}
    (fillers : ∀ tree ∈ comments, IsFiller tree)
    (read : node ∈ readings true (insertComments comments body)) :
    node ∈ comments ∨ node ∈ readings true body := by
  obtain ⟨tree, member, read⟩ := mem_readings.1 read
  rcases mem_insertComments.1 member with moved | old
  · rw [reading_filler (fillers tree moved), List.mem_singleton] at read
    exact .inl (read ▸ moved)
  · exact .inr (mem_readings.2 ⟨tree, old, read⟩)

theorem inOrder_insertComments {comments body : List Tree} {low : Nat} (settled : Settled low body)
    (order : InOrder (readings true body)) (leaves : ∀ tree ∈ comments, IsFiller tree)
    (early : ∀ tree ∈ comments, tree.place ≤ low) :
    InOrder (readings true (insertComments comments body)) := by
  obtain ⟨front, rest, rfl, fillers, later⟩ := settled
  have all : ∀ tree ∈ insertComments comments front, IsFiller tree := by
    intro tree member
    rcases mem_insertComments.1 member with member | member
    · exact leaves tree member
    · exact fillers tree member
  rw [readings_append, readings_fillers fillers, inOrder_append] at order
  obtain ⟨front_order, rest_order, across⟩ := order
  have bars : ∀ comment ∈ comments, ∀ first ∈ rest.head?, Bars first comment := fun comment member =>
    bars_of_readings fun node read => Nat.le_trans (early comment member) (later node read)
  rw [insertComments_append bars, readings_append, readings_fillers all, inOrder_append]
  refine ⟨inOrder_insertComments_fillers front_order fillers leaves, rest_order, ?_⟩
  intro x first y second
  rcases mem_insertComments.1 first with first | first
  · exact Nat.le_trans (early x first) (later y second)
  · exact across x first y second

end Insertion

section Kept

theorem reading_sublist_modifyBody {tree : Tree} (body : hasBody tree = true)
    {f : List Tree → List Tree} (grows : ∀ nodes, List.Sublist nodes (f nodes)) :
    List.Sublist (tree.reading false) ((modifyBody f tree).reading false) := by
  by_cases block : hasBodyBlock tree = true
  · rw [reading_modifyBody body block, reading_split body block]
    have middle : List.Sublist (readings true (bodyOf tree)) (readings true (f (bodyOf tree))) :=
      readings_sublist (grows (bodyOf tree))
    exact ((List.Sublist.refl _).append middle).append (List.Sublist.refl _)
  · rw [Bool.not_eq_true] at block
    simp only [modifyBody_of_no_block block, List.Sublist.refl]

theorem mem_reading_modifyBody {tree node : Tree} {comments : List Tree}
    {f : List Tree → List Tree} (body : hasBody tree = true)
    (members : ∀ node ∈ readings true (f (bodyOf tree)),
      node ∈ comments ∨ node ∈ readings true (bodyOf tree))
    (read : node ∈ (modifyBody f tree).reading false) :
    node ∈ comments ∨ node ∈ tree.reading false := by
  by_cases block : hasBodyBlock tree = true
  · rw [reading_modifyBody body block, List.mem_append, List.mem_append] at read
    rw [reading_split body block, List.mem_append, List.mem_append]
    rcases read with (before | inside) | after
    · exact .inr (.inl (.inl before))
    · exact (members node inside).imp_right fun old => .inl (.inr old)
    · exact .inr (.inr after)
  · rw [Bool.not_eq_true] at block
    rw [modifyBody_of_no_block block] at read
    exact .inr read

theorem bodiless_or_last (nodes : List Tree) :
    (∀ tree ∈ nodes, hasBody tree = false) ∨
      ∃ before body footer, nodes = before ++ body :: footer ∧ hasBody body = true ∧
        ∀ tree ∈ footer, hasBody tree = false := by
  rcases none_or_first hasBody nodes.reverse with none | ⟨back, body, front, same, none, holds⟩
  · exact .inl (by simpa using none)
  · refine .inr ⟨front.reverse, body, back.reverse, ?_, holds, by simpa using none⟩
    have reversed := congrArg List.reverse same
    simpa using reversed

theorem Receives.reading_sublist {before : Tree → Tree → Prop} {comments : List Tree}
    {tree changed : Tree} (receives : Receives before comments tree changed) :
    List.Sublist (tree.reading false) (changed.reading false) := by
  induction receives with
  | unchanged => exact List.Sublist.refl _
  | @front _ moved _ holds _ _ ih =>
      exact ih.trans (reading_sublist_modifyBody holds (insertComments_sublist moved))
  | @back _ moved _ holds _ ih =>
      have grows (body : List Tree) : List.Sublist body (body ++ moved) :=
        List.sublist_append_left body moved
      exact ih.trans (reading_sublist_modifyBody holds grows)

theorem readings_sublist_of_receives {before : Tree → Tree → Prop} {comments xs ys : List Tree}
    (all : List.Forall₂ (Receives before comments) xs ys) :
    List.Sublist (readings false xs) (readings false ys) := by
  induction all with
  | nil => exact List.Sublist.refl _
  | cons first _ ih => exact first.reading_sublist.append ih

theorem readings_sublist_hoistComments (pending done nodes : List Tree) :
    List.Sublist (readings false (done ++ nodes.filter (!isComment ·)))
      (readings false (hoistComments pending done nodes)) :=
  readings_sublist_of_receives (receives_any pending done nodes)

theorem hoistComments_reaches (pending done front rest : List Tree) :
    ∃ pending' done',
      hoistComments pending done (front ++ rest) = hoistComments pending' done' rest := by
  induction front generalizing pending done with
  | nil => exact ⟨pending, done, rfl⟩
  | cons child front ih =>
      rw [List.cons_append, hoistComments]
      split
      · exact ih _ _
      · split
        · exact ih _ _
        · exact ih _ _

theorem reading_sublist_hoistComments {tree : Tree} {nodes : List Tree} (member : tree ∈ nodes)
    (other : isComment tree = false) :
    List.Sublist (tree.reading false) (readings false (hoistComments [] [] nodes)) := by
  have kept : List.Sublist [tree] (nodes.filter (!isComment ·)) :=
    List.singleton_sublist.2 (List.mem_filter.2 ⟨member, by simp [other]⟩)
  have read := (readings_sublist kept).trans (readings_sublist_hoistComments [] [] nodes)
  simpa using read

theorem readings_filter_other {nodes : List Tree}
    (leaves : ∀ tree ∈ nodes, isComment tree = true → tree.children = []) :
    readings false (nodes.filter (!isComment ·)) = readings false nodes := by
  induction nodes with
  | nil => rfl
  | cons tree rest ih =>
      simp only [List.mem_cons, forall_eq_or_imp] at leaves
      by_cases comment : isComment tree = true
      · have empty : tree.reading false = [] := by
          rw [reading_inner, leaves.1 comment, readings_nil]
        simp [comment, empty, ih leaves.2]
      · simp [comment, ih leaves.2]

variable {nodes : List Tree}

theorem not_carriesForward (leaves : ∀ tree ∈ nodes, isComment tree = true → tree.children = [])
    (order : InOrder (readings false (hoistComments [] [] nodes))) : ¬CarriesForward nodes := by
  rintro ⟨before, header, body, after, rfl, bodiless, holds, block, comment, inside, isComment,
    node, read, passed⟩
  have header_leaves : ∀ tree ∈ header, Layout.isComment tree = true → tree.children = [] :=
    fun tree member => leaves tree (by simp [member])
  obtain ⟨pending, done, reached⟩ :=
    hoistComments_reaches [] [] before (header ++ body :: after)
  rw [List.append_assoc, reached, hoistComments_header bodiless, hoistComments_body holds] at order
  have passed := readings_sublist_hoistComments [] (done ++ header.filter (!Layout.isComment ·) ++
    [modifyBody (insertComments (pending ++ header.filter Layout.isComment)) body]) after
  rw [readings_append] at passed
  have kept := order.sublist ((List.sublist_append_left ..).trans passed)
  rw [readings_append, readings_append, readings_cons, readings_nil, List.append_nil,
    reading_modifyBody holds block, readings_filter_other header_leaves, inOrder_append] at kept
  obtain ⟨_, body_order, across⟩ := kept
  have carried : comment ∈ readings true
      (insertComments (pending ++ header.filter Layout.isComment) (bodyOf body)) := by
    refine mem_readings_comment ?_ isComment (header_leaves comment inside isComment)
    rw [mem_insertComments, List.mem_append, List.mem_filter]
    exact .inl (.inr ⟨inside, isComment⟩)
  rw [readings_append, List.mem_append] at read
  rcases read with read | read
  · have le := across node (List.mem_append_right _ read) comment
      (List.mem_append_left _ (List.mem_append_right _ carried))
    omega
  · have le := (inOrder_append.1 (inOrder_append.1 body_order).1).2.2 node read comment carried
    omega

theorem not_carriesBack (leaves : ∀ tree ∈ nodes, isComment tree = true → tree.children = [])
    (order : InOrder (readings false (hoistComments [] [] nodes))) : ¬CarriesBack nodes := by
  rintro ⟨before, body, footer, rfl, bodiless, holds, block, comment, inside, isComment,
    node, read, passed⟩
  have footer_leaves : ∀ tree ∈ footer, Layout.isComment tree = true → tree.children = [] :=
    fun tree member => leaves tree (by simp [member])
  have some_comment : footer.filter Layout.isComment ≠ [] :=
    List.ne_nil_of_mem (List.mem_filter.2 ⟨inside, isComment⟩)
  obtain ⟨pending, done, reached⟩ := hoistComments_reaches [] [] before (body :: footer)
  have others : ∀ tree ∈ footer.filter (!Layout.isComment ·), hasBody tree = false :=
    fun tree member => bodiless tree (List.mem_filter.1 member).1
  have placed := hoistComments_header bodiless []
    (done ++ [modifyBody (insertComments pending) body]) []
  rw [List.append_nil] at placed
  rw [reached, hoistComments_body holds, placed, List.nil_append, hoistComments_nil,
    if_neg (by simpa using some_comment), List.append_assoc, List.singleton_append,
    appendToLastBody_eq (by rwa [hasBody_modifyBody]) others, modifyBody_modifyBody,
    readings_append, readings_cons, reading_modifyBody holds block, readings_append,
    readings_filter_other footer_leaves, inOrder_append] at order
  have carried : comment ∈ readings true (footer.filter Layout.isComment) :=
    mem_readings_comment (List.mem_filter.2 ⟨inside, isComment⟩) isComment
      (footer_leaves comment inside isComment)
  obtain ⟨body_order, _, across⟩ := inOrder_append.1 order.2.1
  rw [readings_append, List.mem_append] at read
  rcases read with read | read
  · have le := (inOrder_append.1 body_order).2.2 comment
      (List.mem_append_right _ (List.mem_append_right _ carried)) node read
    omega
  · have le := across comment
      (List.mem_append_left _ (List.mem_append_right _ (List.mem_append_right _ carried))) node read
    omega

end Kept

section Laid

/-- The children of a compound statement from offset `low` on. The blank lines at the front of a
block may start as early as `opener`, where the last node that is no comment stops. -/
inductive Laid : Nat → Nat → List Tree → Prop
  | nil {opener low : Nat} : Laid opener low []
  | comment {opener low stop : Nat} {tree : Tree} {rest : List Tree}
      (kind : isComment tree = true) (leaf : tree.children = []) (start : low ≤ tree.place)
      (bound : tree.place ≤ stop) (others : Laid opener stop rest) :
      Laid opener low (tree :: rest)
  | silent {opener low stop : Nat} {tree : Tree} {rest : List Tree}
      (kind : isComment tree = false) (body : hasBody tree = false)
      (empty : tree.reading false = []) (bound : low ≤ stop) (others : Laid opener stop rest) :
      Laid opener low (tree :: rest)
  | node {opener low stop : Nat} {tree : Tree} {rest : List Tree}
      (kind : isComment tree = false) (start : low ≤ tree.place) (bound : tree.place ≤ stop)
      (reads : Between opener stop (tree.reading false))
      (body : hasBody tree = true → Settled tree.place (bodyOf tree) ∧
        ∀ node ∈ readings false (afterBody tree), tree.place ≤ node.place)
      (others : Laid stop stop rest) : Laid opener low (tree :: rest)

theorem Laid.leaves {opener low : Nat} {nodes : List Tree} (laid : Laid opener low nodes) :
    ∀ tree ∈ nodes, isComment tree = true → tree.children = [] := by
  induction laid with
  | nil => simp
  | comment kind leaf start bound others ih => simpa [leaf] using ih
  | silent kind body empty bound others ih => simpa [kind] using ih
  | node kind start bound reads body others ih => simpa [kind] using ih

theorem settled_bodyOf {tree : Tree} {low : Nat} (body : hasBody tree = true)
    (later : ∀ x ∈ tree.reading false, low ≤ x.place) :
    Settled low (bodyOf tree) ∧ ∀ x ∈ readings false (afterBody tree), low ≤ x.place := by
  by_cases block : hasBodyBlock tree = true
  · rw [reading_split body block] at later
    refine ⟨⟨[], bodyOf tree, rfl, by simp, fun x read => later x ?_⟩, fun x read => later x ?_⟩
    · exact List.mem_append_left _ (List.mem_append_right _ read)
    · exact List.mem_append_right _ read
  · rw [Bool.not_eq_true] at block
    obtain ⟨empty, none⟩ := bodyOf_of_no_block block
    rw [empty, none]
    exact ⟨⟨[], [], rfl, by simp, by simp⟩, by simp⟩

theorem Laid.each_inOrder {opener low : Nat} {nodes : List Tree} (laid : Laid opener low nodes)
    (openers : opener ≤ low) :
    (InOrder (readings false nodes) ↔ ∀ tree ∈ nodes, InOrder (tree.reading false)) ∧
      ∀ x ∈ readings false nodes, opener ≤ x.place := by
  induction laid with
  | nil => simp [InOrder]
  | @comment _ _ _ tree _ kind leaf start bound others ih =>
      have empty : tree.reading false = [] := by rw [reading_inner, leaf, readings_nil]
      have rest := ih (by omega)
      simpa [empty, InOrder] using rest
  | silent kind body empty bound others ih =>
      have rest := ih (by omega)
      simpa [empty, InOrder] using rest
  | @node opener low stop tree rest kind start bound reads body others ih =>
      obtain ⟨order, later⟩ := ih (Nat.le_refl _)
      rw [readings_cons, inOrder_append, order]
      constructor
      · simp only [List.mem_cons, forall_eq_or_imp]
        exact ⟨fun all => ⟨all.1, all.2.1⟩, fun all => ⟨all.1, all.2, fun x first y second =>
          Nat.le_trans (reads x first).2 (later y second)⟩⟩
      · intro x read
        rcases List.mem_append.1 read with read | read
        · exact (reads x read).1
        · have := later x read
          omega

structure Header (opener low opener' low' : Nat) (nodes : List Tree) : Prop where
  opener_le : opener ≤ opener'
  low_le : low ≤ low'
  openers : opener' ≤ low'
  reads : Between opener opener' (readings false nodes)
  order : (∀ tree ∈ nodes, InOrder (tree.reading false)) → InOrder (readings false nodes)
  comments : Between low low' (nodes.filter isComment)
  sorted : InOrder (nodes.filter isComment)
  leaves : ∀ tree ∈ nodes, isComment tree = true → tree.children = []

theorem fillers_of_leaves {nodes : List Tree}
    (leaves : ∀ tree ∈ nodes, isComment tree = true → tree.children = []) :
    ∀ comment ∈ nodes.filter isComment, IsFiller comment := by
  intro comment member
  obtain ⟨inside, kind⟩ := List.mem_filter.1 member
  exact ⟨.inr (by simpa [isComment] using kind), leaves comment inside kind⟩

namespace Header

variable {opener low stop opener' low' : Nat} {tree : Tree} {nodes : List Tree}

theorem fillers (spans : Header opener low opener' low' nodes) :
    ∀ tree ∈ nodes.filter isComment, IsFiller tree :=
  fillers_of_leaves spans.leaves

theorem nil (openers : opener ≤ low) : Header opener low opener low [] := by
  refine ⟨Nat.le_refl _, Nat.le_refl _, openers, ?_, ?_, ?_, ?_, ?_⟩
  all_goals simp [Between, InOrder]

theorem comment (kind : isComment tree = true) (leaf : tree.children = [])
    (start : low ≤ tree.place) (bound : tree.place ≤ stop)
    (spans : Header opener stop opener' low' nodes) :
    Header opener low opener' low' (tree :: nodes) := by
  have empty : tree.reading false = [] := by rw [reading_inner, leaf, readings_nil]
  have low_le := spans.low_le
  refine ⟨spans.opener_le, by omega, spans.openers, ?_, ?_, ?_, ?_, ?_⟩
  · simpa [empty] using spans.reads
  · intro orders
    simp only [List.mem_cons, forall_eq_or_imp] at orders
    simpa [empty] using spans.order orders.2
  · intro node member
    simp only [kind, List.filter_cons_of_pos, List.mem_cons] at member
    rcases member with rfl | member
    · omega
    · have := spans.comments node member
      omega
  · rw [List.filter_cons_of_pos kind, inOrder_iff, List.pairwise_cons]
    refine ⟨fun node member => ?_, inOrder_iff.1 spans.sorted⟩
    have := spans.comments node member
    omega
  · simpa [leaf] using spans.leaves

theorem silent (kind : isComment tree = false) (empty : tree.reading false = [])
    (bound : low ≤ stop) (spans : Header opener stop opener' low' nodes) :
    Header opener low opener' low' (tree :: nodes) := by
  have others : (tree :: nodes).filter isComment = nodes.filter isComment :=
    List.filter_cons_of_neg (by simp [kind])
  refine ⟨spans.opener_le, Nat.le_trans bound spans.low_le, spans.openers, ?_, ?_, ?_, ?_, ?_⟩
  · simpa [empty] using spans.reads
  · intro orders
    simp only [List.mem_cons, forall_eq_or_imp] at orders
    simpa [empty] using spans.order orders.2
  · rw [others]
    exact spans.comments.widen bound (Nat.le_refl _)
  · rw [others]
    exact spans.sorted
  · simpa [kind] using spans.leaves

-- The node moves the offset of both bounds: what follows starts where the node stops.
theorem node (kind : isComment tree = false) (bound : low ≤ stop) (before : opener ≤ stop)
    (reads : Between opener stop (tree.reading false))
    (spans : Header stop stop opener' low' nodes) :
    Header opener low opener' low' (tree :: nodes) := by
  have others : (tree :: nodes).filter isComment = nodes.filter isComment :=
    List.filter_cons_of_neg (by simp [kind])
  have opener_le := spans.opener_le
  refine ⟨Nat.le_trans before opener_le, Nat.le_trans bound spans.low_le, spans.openers,
    ?_, ?_, ?_, ?_, ?_⟩
  · rw [readings_cons, between_append]
    exact ⟨reads.widen (Nat.le_refl _) opener_le, spans.reads.widen before (Nat.le_refl _)⟩
  · intro orders
    simp only [List.mem_cons, forall_eq_or_imp] at orders
    rw [readings_cons, inOrder_append_of_between reads spans.reads]
    exact ⟨orders.1, spans.order orders.2⟩
  · rw [others]
    exact spans.comments.widen bound (Nat.le_refl _)
  · rw [others]
    exact spans.sorted
  · simpa [kind] using spans.leaves

end Header

theorem Laid.header {opener low : Nat} {header rest : List Tree}
    (laid : Laid opener low (header ++ rest)) (openers : opener ≤ low)
    (bodiless : ∀ tree ∈ header, hasBody tree = false) :
    ∃ opener' low', Laid opener' low' rest ∧ Header opener low opener' low' header := by
  induction header generalizing opener low with
  | nil => exact ⟨opener, low, laid, .nil openers⟩
  | cons tree header ih =>
      rw [List.forall_mem_cons] at bodiless
      cases laid with
      | comment kind leaf start bound others =>
          obtain ⟨opener', low', laid, spans⟩ := ih others (by omega) bodiless.2
          exact ⟨opener', low', laid, spans.comment kind leaf start bound⟩
      | silent kind body empty bound others =>
          obtain ⟨opener', low', laid, spans⟩ := ih others (by omega) bodiless.2
          exact ⟨opener', low', laid, spans.silent kind empty bound⟩
      | node kind start bound reads body others =>
          obtain ⟨opener', low', laid, spans⟩ := ih others (Nat.le_refl _) bodiless.2
          exact ⟨opener', low', laid, spans.node kind (by omega) (by omega) reads⟩

theorem inOrder_replace {front middle middle' back comments : List Tree}
    (order : InOrder (front ++ middle ++ back)) (order' : InOrder middle')
    (members : ∀ node ∈ middle', node ∈ comments ∨ node ∈ middle)
    (behind : ∀ x ∈ front, ∀ comment ∈ comments, x.place ≤ comment.place)
    (ahead : ∀ comment ∈ comments, ∀ y ∈ back, comment.place ≤ y.place) :
    InOrder (front ++ middle' ++ back) := by
  simp only [inOrder_append, List.mem_append] at order ⊢
  obtain ⟨⟨front_order, _, front_middle⟩, back_order, front_back⟩ := order
  refine ⟨⟨front_order, order', fun x first y second => ?_⟩, back_order, fun x first y second => ?_⟩
  · rcases members y second with comment | old
    · exact behind x first y comment
    · exact front_middle x first y old
  · rcases first with first | first
    · exact front_back x (.inl first) y second
    · rcases members x first with comment | old
      · exact ahead x comment y second
      · exact front_back x (.inr old) y second

theorem inOrder_modifyBody {before after comments : List Tree} {body : Tree}
    {f : List Tree → List Tree} (holds : hasBody body = true) (block : hasBodyBlock body = true)
    (order : InOrder (readings false (before ++ body :: after)))
    (order' : InOrder (readings true (f (bodyOf body))))
    (members : ∀ node ∈ readings true (f (bodyOf body)),
      node ∈ comments ∨ node ∈ readings true (bodyOf body))
    (behind : ∀ x ∈ readings false (before ++ beforeBody body), ∀ comment ∈ comments,
      x.place ≤ comment.place)
    (ahead : ∀ comment ∈ comments, ∀ y ∈ readings false (afterBody body ++ after),
      comment.place ≤ y.place) :
    InOrder (readings false (before ++ modifyBody f body :: after)) := by
  have whole : InOrder (readings false (before ++ beforeBody body) ++
      readings true (bodyOf body) ++ readings false (afterBody body ++ after)) := by
    simpa [reading_split holds block] using order
  have result := inOrder_replace whole order' members behind ahead
  simpa [reading_modifyBody holds block] using result

variable {opener : Nat} {nodes done : List Tree}

theorem inOrder_hoistComments_footer (laid : Laid opener opener nodes)
    (order : ∀ tree ∈ nodes, InOrder (tree.reading false))
    (bodiless : ∀ tree ∈ nodes, hasBody tree = false) (done_order : InOrder (readings false done))
    (done_le : ∀ node ∈ readings false done, node.place ≤ opener)
    (last : (∀ tree ∈ done, hasBody tree = false) ∨ ∃ before body, done = before ++ [body] ∧
      hasBody body = true ∧ ¬PassesBack body nodes) :
    InOrder (readings false (hoistComments [] done nodes)) := by
  have whole : Laid opener opener (nodes ++ []) := by rwa [List.append_nil]
  obtain ⟨opener', low', _, spans⟩ := whole.header (Nat.le_refl opener) bodiless
  have passed := hoistComments_header bodiless [] done []
  rw [List.append_nil, List.nil_append] at passed
  have others : ∀ tree ∈ nodes.filter (!isComment ·), hasBody tree = false :=
    fun tree member => bodiless tree (List.mem_filter.1 member).1
  -- Without the comments nothing moves.
  have base : InOrder (readings false (done ++ nodes.filter (!isComment ·))) := by
    rw [readings_append, readings_filter_other spans.leaves, inOrder_append]
    refine ⟨done_order, spans.order order, fun x first y second => ?_⟩
    exact Nat.le_trans (done_le x first) (spans.reads y second).1
  rw [passed, hoistComments_nil]
  split
  · exact base
  · rcases last with none | ⟨before, body, rfl, holds, stays⟩
    · rw [appendToLastBody_of_none]
      · exact base
      · intro tree member
        exact (List.mem_append.1 member).elim (none tree) (others tree)
    · rw [List.append_assoc, List.singleton_append] at base ⊢
      rw [appendToLastBody_eq holds others]
      by_cases block : hasBodyBlock body = true
      · -- All that is read in front of the end of the body is read before the comments.
        have late : ∀ x ∈ readings false before ++ (readings false (beforeBody body) ++
            readings true (bodyOf body)), ∀ comment ∈ nodes.filter isComment,
            x.place ≤ comment.place := by
          intro x first comment member
          have early := done_le x (by
            rw [readings_append, readings_cons, readings_nil, List.append_nil,
              reading_split holds block, ← List.append_assoc]
            exact List.mem_append_left _ first)
          exact Nat.le_trans early (spans.comments comment member).1
        have body_order : InOrder (readings true (bodyOf body)) := by
          rw [readings_append, readings_cons, reading_split holds block] at base
          refine base.sublist (List.Sublist.trans ?_ (List.sublist_append_right ..))
          refine List.Sublist.trans ?_ (List.sublist_append_left ..)
          exact (List.sublist_append_right ..).trans (List.sublist_append_left ..)
        refine inOrder_modifyBody holds block base ?_ (fun node member => ?_)
          (fun x first => late x ?_) ?_
        · rw [readings_append, readings_fillers spans.fillers, inOrder_append]
          exact ⟨body_order, spans.sorted, fun x first => late x (by simp [first])⟩
        · rw [readings_append, readings_fillers spans.fillers] at member
          exact (List.mem_append.1 member).symm
        · rw [readings_append] at first
          rw [← List.append_assoc]
          exact List.mem_append_left _ first
        · -- Behind the body stand nodes that no comment passes.
          intro comment member y read
          obtain ⟨inside, kind⟩ := List.mem_filter.1 member
          rw [readings_append, readings_filter_other spans.leaves, ← readings_append] at read
          exact Nat.le_of_not_lt fun passes =>
            stays ⟨block, comment, inside, kind, y, read, passes⟩
      · -- A body without a block takes no comment.
        rw [Bool.not_eq_true] at block
        rwa [modifyBody_of_no_block block]

theorem inOrder_hoistComments_header {opener' low' : Nat} {header : List Tree} {body : Tree}
    (spans : Header opener opener opener' low' header)
    (order : ∀ tree ∈ header, InOrder (tree.reading false))
    (body_order : InOrder (body.reading false)) (holds : hasBody body = true)
    (reads : ∀ node ∈ body.reading false, opener' ≤ node.place) (start : low' ≤ body.place)
    (settled : Settled body.place (bodyOf body) ∧
      ∀ node ∈ readings false (afterBody body), body.place ≤ node.place)
    (done_order : InOrder (readings false done))
    (done_le : ∀ node ∈ readings false done, node.place ≤ opener)
    (stays : ¬PassesForward header body) :
    InOrder (readings false (done ++ header.filter (!isComment ·) ++
      [modifyBody (insertComments (header.filter isComment)) body])) := by
  have base : InOrder (readings false (done ++ header.filter (!isComment ·) ++ [body])) := by
    rw [readings_append, readings_append, readings_filter_other spans.leaves, readings_cons,
      readings_nil, List.append_nil, inOrder_append, inOrder_append]
    refine ⟨⟨done_order, spans.order order, fun x first y second => ?_⟩, body_order, ?_⟩
    · exact Nat.le_trans (done_le x first) (spans.reads y second).1
    · intro x first y second
      have later := reads y second
      have opener_le := spans.opener_le
      rcases List.mem_append.1 first with first | first
      · have := done_le x first
        omega
      · have := (spans.reads x first).2
        omega
  by_cases block : hasBodyBlock body = true
  · have early : ∀ comment ∈ header.filter isComment, comment.place ≤ body.place :=
      fun comment member => Nat.le_trans (spans.comments comment member).2 start
    have inner : InOrder (readings true (bodyOf body)) := by
      rw [reading_split holds block] at body_order
      exact body_order.sublist
        ((List.sublist_append_right ..).trans (List.sublist_append_left ..))
    refine inOrder_modifyBody holds block base
      (inOrder_insertComments settled.1 inner spans.fillers early)
      (fun _ => mem_readings_insertComments spans.fillers) ?_ ?_
    · -- In front of the body: what is done, and the header, which no comment passes.
      intro x first comment member
      obtain ⟨inside, kind⟩ := List.mem_filter.1 member
      rw [readings_append, readings_append, readings_filter_other spans.leaves,
        List.append_assoc, ← readings_append, List.mem_append] at first
      rcases first with first | first
      · exact Nat.le_trans (done_le x first) (spans.comments comment member).1
      · exact Nat.le_of_not_lt fun passes =>
          stays ⟨block, comment, inside, kind, x, first, passes⟩
    · intro comment member y read
      rw [List.append_nil] at read
      exact Nat.le_trans (early comment member) (settled.2 y read)
  · rw [Bool.not_eq_true] at block
    rwa [modifyBody_of_no_block block]

theorem inOrder_hoistComments (laid : Laid opener opener nodes)
    (order : ∀ tree ∈ nodes, InOrder (tree.reading false)) (forward : ¬CarriesForward nodes)
    (back : ¬CarriesBack nodes) (done_order : InOrder (readings false done))
    (done_le : ∀ node ∈ readings false done, node.place ≤ opener)
    (last : (∀ tree ∈ done, hasBody tree = false) ∨ ∃ before body, done = before ++ [body] ∧
      hasBody body = true ∧ ((∀ tree ∈ nodes, hasBody tree = false) → ¬PassesBack body nodes)) :
    InOrder (readings false (hoistComments [] done nodes)) := by
  -- One body after the other: what is done before a body is in order and does not reach past it.
  induction size : nodes.length using Nat.strongRecOn generalizing opener nodes done with
  | ind size ih =>
      rcases none_or_first hasBody nodes with none | ⟨header, body, after, rfl, none, holds⟩
      · refine inOrder_hoistComments_footer laid order none done_order done_le ?_
        rcases last with bodiless | ⟨before, body, ends, holds, stays⟩
        · exact .inl bodiless
        · exact .inr ⟨before, body, ends, holds, stays none⟩
      · obtain ⟨opener', low', rest, spans⟩ := laid.header (Nat.le_refl opener) none
        have other := ne_comment_of_hasBody holds
        cases rest with
        | comment kind => simp [other] at kind
        | silent _ bodiless => simp [holds] at bodiless
        | @node _ _ stop _ _ _ start bound reads settled others =>
            have header_order : ∀ tree ∈ header, InOrder (tree.reading false) :=
              fun tree member => order tree (by simp [member])
            have body_order := order body (by simp)
            have stays : ¬PassesForward header body :=
              fun passes => forward ⟨[], header, body, after, rfl, none, holds, passes⟩
            have placed := inOrder_hoistComments_header spans header_order body_order holds
              (fun node read => (reads node read).1) start (settled holds) done_order done_le stays
            rw [hoistComments_header none, hoistComments_body holds, List.nil_append]
            refine ih _ ?_ others (fun tree member => order tree (by simp [member]))
              (fun carries => ?_) (fun carries => ?_) placed (fun node read => ?_) (.inr ?_) rfl
            · rw [← size, List.length_append, List.length_cons]
              omega
            · have whole := (carries.append [body]).append header
              exact forward (by simpa using whole)
            · have whole := (carries.append [body]).append header
              exact back (by simpa using whole)
            · have opener_le := spans.opener_le
              have openers := spans.openers
              have early : ∀ comment ∈ header.filter isComment, comment.place ≤ body.place :=
                fun comment member => Nat.le_trans (spans.comments comment member).2 start
              rw [readings_append, readings_append, readings_filter_other spans.leaves,
                readings_cons, readings_nil, List.append_nil, List.mem_append,
                List.mem_append] at read
              rcases read with (read | read) | read
              · have := done_le node read
                omega
              · have := (spans.reads node read).2
                omega
              · rcases mem_reading_modifyBody holds
                  (fun _ => mem_readings_insertComments spans.fillers) read with moved | old
                · have := early node moved
                  omega
                · exact (reads node old).2
            · refine ⟨_, _, rfl, by rwa [hasBody_modifyBody], fun bodiless passes => ?_⟩
              rw [passesBack_modifyBody] at passes
              exact back ⟨header, body, after, rfl, bodiless, holds, passes⟩

end Laid

theorem Receives.mem_reading {before : Tree → Tree → Prop} {comments : List Tree}
    {tree changed node : Tree} (receives : Receives before comments tree changed)
    (fillers : ∀ comment ∈ comments, IsFiller comment) (read : node ∈ changed.reading false) :
    node ∈ comments ∨ node ∈ tree.reading false := by
  induction receives with
  | unchanged => exact .inr read
  | @front changed moved _ holds among _ ih =>
      have own : ∀ node ∈ readings true (insertComments moved (bodyOf changed)),
          node ∈ moved ∨ node ∈ readings true (bodyOf changed) := fun _ =>
        mem_readings_insertComments fun comment member => fillers comment (among comment member)
      rcases mem_reading_modifyBody holds own read with moved | old
      · exact .inl (among _ moved)
      · exact ih old
  | @back changed moved _ holds among ih =>
      have own : ∀ node ∈ readings true (bodyOf changed ++ moved),
          node ∈ moved ∨ node ∈ readings true (bodyOf changed) := by
        intro node member
        rw [readings_append, readings_fillers fun comment member =>
          fillers comment (among comment member), List.mem_append] at member
        exact member.symm
      rcases mem_reading_modifyBody holds own read with moved | old
      · exact .inl (among _ moved)
      · exact ih old

theorem mem_readings_hoistComments {node : Tree} {nodes : List Tree}
    (leaves : ∀ tree ∈ nodes, isComment tree = true → tree.children = [])
    (read : node ∈ readings false (hoistComments [] [] nodes)) :
    node ∈ nodes ∨ node ∈ readings false nodes := by
  obtain ⟨changed, member, read⟩ := mem_readings.1 read
  have anyOrder : nodes.Pairwise fun _ _ => True := List.pairwise_of_forall fun _ _ => trivial
  obtain ⟨tree, kept, receives⟩ := exists_left (receives_level anyOrder) member
  rcases receives.mem_reading (fillers_of_leaves leaves) read with moved | old
  · exact .inl (List.mem_filter.1 moved).1
  · exact .inr (mem_readings.2 ⟨tree, (List.mem_filter.1 kept).1, old⟩)

/-- Moving comments keeps a compound statement in order exactly if no comment passes a node that
is read. -/
theorem inOrder_hoistComments_iff {opener : Nat} {nodes : List Tree}
    (laid : Laid opener opener nodes) :
    InOrder (readings false (hoistComments [] [] nodes)) ↔
      (∀ tree ∈ nodes, InOrder (tree.reading false)) ∧ ¬CarriesForward nodes ∧
        ¬CarriesBack nodes := by
  have leaves := laid.leaves
  constructor
  · intro order
    refine ⟨fun tree member => ?_, not_carriesForward leaves order, not_carriesBack leaves order⟩
    by_cases kind : isComment tree = true
    · rw [reading_inner, leaves tree member kind, readings_nil]
      exact List.Pairwise.nil
    · rw [Bool.not_eq_true] at kind
      exact order.sublist (reading_sublist_hoistComments member kind)
  · rintro ⟨order, forward, back⟩
    exact inOrder_hoistComments laid order forward back List.Pairwise.nil
      (by simp) (.inl (by simp))

end NumericPython.Layout
