import NumericPython.Proofs.Layout.BlankRows
import NumericPython.Proofs.Layout.HoistingOrder

set_option autoImplicit false

namespace NumericPython

namespace Tree

def isLayout (tree : Tree) : Bool :=
  tree.kind == .blankLine || tree.kind == .comment

mutual

/-- The tree without the comments and blank lines below it. -/
def withoutLayout : Tree → Tree
  | ⟨kind, span, text, field, children⟩ => ⟨kind, span, text, field, withoutLayouts children⟩

def withoutLayouts : List Tree → List Tree
  | [] => []
  | tree :: rest =>
    if tree.isLayout then withoutLayouts rest else withoutLayout tree :: withoutLayouts rest

end

mutual

/-- The comments below a tree, in preorder. -/
def commentsBelow : Tree → List Tree
  | ⟨_, _, _, _, children⟩ => commentsAmong children

def commentsAmong : List Tree → List Tree
  | [] => []
  | tree :: rest =>
    (if tree.kind == .comment then [tree] else []) ++ (commentsBelow tree ++ commentsAmong rest)

end

theorem withoutLayout_eq (tree : Tree) :
    tree.withoutLayout = { tree with children := withoutLayouts tree.children } := by
  cases tree
  rw [withoutLayout]

theorem commentsBelow_eq (tree : Tree) : tree.commentsBelow = commentsAmong tree.children := by
  cases tree
  rw [commentsBelow]

theorem withoutLayouts_cons (tree : Tree) (rest : List Tree) :
    withoutLayouts (tree :: rest) = withoutLayouts [tree] ++ withoutLayouts rest := by
  by_cases layout : tree.isLayout = true <;> simp [withoutLayouts, layout]

theorem commentsAmong_cons (tree : Tree) (rest : List Tree) :
    commentsAmong (tree :: rest) = commentsAmong [tree] ++ commentsAmong rest := by
  simp [commentsAmong]

theorem commentsAmong_append (xs ys : List Tree) :
    commentsAmong (xs ++ ys) = commentsAmong xs ++ commentsAmong ys := by
  induction xs with
  | nil => rfl
  | cons x xs ih =>
      rw [List.cons_append, commentsAmong_cons, ih, ← List.append_assoc, ← commentsAmong_cons]

/-- What is collected from trees one after the other. The children of a node count by what is
collected from them. -/
structure Survey (α : Type) where
  collect : List Tree → List α
  nil : collect [] = []
  cons (tree : Tree) (rest : List Tree) : collect (tree :: rest) = collect [tree] ++ collect rest
  below (tree : Tree) (nodes : List Tree) (same : collect nodes = collect tree.children) :
    collect [{ tree with children := nodes }] = collect [tree]

theorem Survey.append {α : Type} (survey : Survey α) (xs ys : List Tree) :
    survey.collect (xs ++ ys) = survey.collect xs ++ survey.collect ys := by
  induction xs with
  | nil => rw [survey.nil, List.nil_append, List.nil_append]
  | cons x xs ih =>
      rw [List.cons_append, survey.cons, ih, ← List.append_assoc, ← survey.cons]

theorem withoutLayouts_comment {tree : Tree} (comment : Layout.isComment tree = true) :
    withoutLayouts [tree] = [] := by
  simp only [Layout.isComment, beq_iff_eq] at comment
  simp [withoutLayouts, isLayout, comment]

theorem withoutLayouts_other {tree : Tree} (other : tree.isLayout = false) :
    withoutLayouts [tree] = [tree.withoutLayout] := by
  simp [withoutLayouts, other]

def layoutless : Survey Tree where
  collect := withoutLayouts
  nil := rfl
  cons := withoutLayouts_cons
  below tree nodes same := by
    simp only [withoutLayouts, isLayout, withoutLayout_eq, same]

theorem withoutLayouts_append (xs ys : List Tree) :
    withoutLayouts (xs ++ ys) = withoutLayouts xs ++ withoutLayouts ys :=
  layoutless.append xs ys

theorem commentsAmong_other {tree : Tree} (other : tree.kind ≠ .comment) :
    commentsAmong [tree] = commentsAmong tree.children := by
  simp [commentsAmong, commentsBelow_eq, other]

end Tree

namespace Layout

open NumericPython.Tree

section Bodies

variable {tree : Tree} {f : List Tree → List Tree}

theorem hasBodyBlock_modifyBody : hasBodyBlock (modifyBody f tree) = hasBodyBlock tree := by
  have keeps (b : Tree) : isBodyBlock { b with children := f b.children } = isBodyBlock b := rfl
  by_cases kind : tree.kind = .block
  · simp [modifyBody, hasBodyBlock, kind]
  · simp [modifyBody, hasBodyBlock, kind, any_modifyFirst keeps]

theorem kind_modifyBody : (modifyBody f tree).kind = tree.kind := by
  rw [modifyBody]
  split <;> rfl

theorem collect_modifyFirst {α : Type} {survey : Survey α} {p : Tree → Bool} {g : Tree → Tree}
    (keeps : ∀ node, survey.collect [g node] = survey.collect [node]) (nodes : List Tree) :
    survey.collect (modifyFirst p g nodes) = survey.collect nodes := by
  induction nodes with
  | nil => rfl
  | cons node rest ih =>
      rw [modifyFirst]
      split
      · rw [survey.cons, keeps, ← survey.cons]
      · rw [survey.cons, ih, ← survey.cons]

theorem collect_modifyBody {α : Type} {survey : Survey α}
    (keeps : ∀ body, survey.collect (f body) = survey.collect body) :
    survey.collect [modifyBody f tree] = survey.collect [tree] := by
  have inside (node : Tree) :
      survey.collect [{ node with children := f node.children }] = survey.collect [node] :=
    survey.below node _ (keeps node.children)
  rw [modifyBody]
  split
  · exact inside tree
  · exact survey.below tree _ (collect_modifyFirst inside tree.children)

theorem commentsAmong_modifyFirst {p : Tree → Bool} {g : Tree → Tree} {added : List Tree}
    (adds : ∀ node, p node = true →
      (commentsAmong [g node]).Perm (added ++ commentsAmong [node])) {nodes : List Tree}
    (some_node : nodes.any p = true) :
    (commentsAmong (modifyFirst p g nodes)).Perm (added ++ commentsAmong nodes) := by
  induction nodes with
  | nil => cases some_node
  | cons node rest ih =>
      rw [modifyFirst, commentsAmong_cons node rest]
      split
      next holds =>
        rw [commentsAmong_cons, ← List.append_assoc]
        exact (adds node holds).append_right _
      next other =>
        have later := ih (by simpa [other] using some_node)
        rw [commentsAmong_cons]
        exact (later.append_left _).trans (List.perm_append_comm_assoc ..)

theorem commentsAmong_modifyBody {added : List Tree} (holds : hasBody tree = true)
    (block : hasBodyBlock tree = true)
    (adds : ∀ body, (commentsAmong (f body)).Perm (added ++ commentsAmong body)) :
    (commentsAmong [modifyBody f tree]).Perm (added ++ commentsAmong [tree]) := by
  have other : tree.kind ≠ .comment := by
    simpa [isComment] using ne_comment_of_hasBody holds
  rw [commentsAmong_other other, commentsAmong_other (by rwa [kind_modifyBody]), modifyBody]
  split
  · exact adds tree.children
  next kind =>
    apply commentsAmong_modifyFirst
    · intro node body
      have inner : node.kind ≠ .comment := by
        simp only [isBodyBlock, Bool.and_eq_true, beq_iff_eq] at body
        simp [body.2]
      have changed : commentsAmong [{ node with children := f node.children }] =
          commentsAmong (f node.children) := commentsAmong_other inner
      rw [changed, commentsAmong_other inner]
      exact adds node.children
    · simpa [hasBodyBlock, kind] using block

end Bodies

section Insertion

theorem collect_insertComment {α : Type} {survey : Survey α} {comment : Tree}
    (unseen : survey.collect [comment] = []) (body : List Tree) :
    survey.collect (insertComment comment body) = survey.collect body := by
  induction body with
  | nil => rw [insertComment, unseen, survey.nil]
  | cons node rest ih =>
      rw [insertComment]
      split
      · rw [survey.cons, ih, ← survey.cons]
      · rw [survey.cons, unseen, List.nil_append]

theorem collect_insertComments {α : Type} {survey : Survey α} {comments : List Tree}
    (unseen : ∀ comment ∈ comments, survey.collect [comment] = []) (body : List Tree) :
    survey.collect (insertComments comments body) = survey.collect body := by
  induction comments generalizing body with
  | nil => rfl
  | cons comment rest ih =>
      simp only [List.mem_cons, forall_eq_or_imp] at unseen
      have later := ih unseen.2 (insertComment comment body)
      rw [collect_insertComment unseen.1] at later
      exact later

theorem commentsAmong_insertComment (comment : Tree) (body : List Tree) :
    (commentsAmong (insertComment comment body)).Perm
      (commentsAmong [comment] ++ commentsAmong body) := by
  induction body with
  | nil => simp [insertComment, commentsAmong]
  | cons node rest ih =>
      rw [insertComment]
      split
      · rw [commentsAmong_cons node, commentsAmong_cons node rest]
        exact (ih.append_left _).trans (List.perm_append_comm_assoc ..)
      · rw [commentsAmong_cons]

theorem commentsAmong_insertComments (comments body : List Tree) :
    (commentsAmong (insertComments comments body)).Perm
      (commentsAmong comments ++ commentsAmong body) := by
  induction comments generalizing body with
  | nil => exact List.Perm.refl _
  | cons comment rest ih =>
      have later : (commentsAmong (insertComments (comment :: rest) body)).Perm
          (commentsAmong rest ++ commentsAmong (insertComment comment body)) :=
        ih (insertComment comment body)
      apply later.trans
      apply ((commentsAmong_insertComment comment body).append_left _).trans
      rw [commentsAmong_cons comment rest, List.append_assoc]
      exact List.perm_append_comm_assoc ..

end Insertion

section Hoisting

theorem collect_unseen {α : Type} {survey : Survey α} {comments : List Tree}
    (unseen : ∀ comment ∈ comments, survey.collect [comment] = []) :
    survey.collect comments = [] := by
  induction comments with
  | nil => exact survey.nil
  | cons comment rest ih =>
      simp only [List.mem_cons, forall_eq_or_imp] at unseen
      rw [survey.cons, unseen.1, ih unseen.2]
      rfl

theorem Receives.collect {α : Type} {survey : Survey α} {before : Tree → Tree → Prop}
    {comments : List Tree} {tree changed : Tree} (receives : Receives before comments tree changed)
    (unseen : ∀ comment ∈ comments, survey.collect [comment] = []) :
    survey.collect [changed] = survey.collect [tree] := by
  induction receives with
  | unchanged => rfl
  | front _ _ among _ ih =>
      have silent := collect_insertComments fun comment member => unseen comment (among comment member)
      rw [collect_modifyBody silent, ih]
  | @back changed moved _ _ among ih =>
      have silent (body : List Tree) : survey.collect (body ++ moved) = survey.collect body := by
        rw [survey.append, collect_unseen fun comment member => unseen comment (among comment member),
          List.append_nil]
      rw [collect_modifyBody silent, ih]

theorem collect_of_forall₂ {α : Type} {survey : Survey α} {xs ys : List Tree}
    (all : List.Forall₂ (fun x y => survey.collect [y] = survey.collect [x]) xs ys) :
    survey.collect ys = survey.collect xs := by
  induction all with
  | nil => rfl
  | @cons x y xs ys first _ ih => rw [survey.cons y ys, first, ih, ← survey.cons x xs]

theorem collect_filter {α : Type} {survey : Survey α} {nodes : List Tree}
    (comments : ∀ node ∈ nodes, isComment node = true → survey.collect [node] = []) :
    survey.collect (nodes.filter (!isComment ·)) = survey.collect nodes := by
  induction nodes with
  | nil => rfl
  | cons node rest ih =>
      simp only [List.mem_cons, forall_eq_or_imp] at comments
      rw [survey.cons node rest, ← ih comments.2]
      by_cases comment : isComment node = true
      · rw [List.filter_cons_of_neg (by simp [comment]), comments.1 comment, List.nil_append]
      · rw [List.filter_cons_of_pos (by simpa using comment), survey.cons node]

theorem collect_hoistComments {α : Type} {survey : Survey α} {nodes : List Tree}
    (comments : ∀ node ∈ nodes, isComment node = true → survey.collect [node] = []) :
    survey.collect (hoistComments [] [] nodes) = survey.collect nodes := by
  have anyOrder : nodes.Pairwise fun _ _ => True := List.pairwise_of_forall fun _ _ => trivial
  have unseen : ∀ comment ∈ nodes.filter isComment, survey.collect [comment] = [] := by
    intro comment member
    obtain ⟨inside, kind⟩ := List.mem_filter.1 member
    exact comments comment inside kind
  rw [← collect_filter comments]
  exact collect_of_forall₂ ((receives_level anyOrder).imp fun _ _ receives => receives.collect unseen)

theorem withoutLayouts_hoistComments (nodes : List Tree) :
    withoutLayouts (hoistComments [] [] nodes) = withoutLayouts nodes :=
  @collect_hoistComments _ layoutless nodes fun _ _ => withoutLayouts_comment

def BodiesOpen (nodes : List Tree) : Prop :=
  ∀ node ∈ nodes, hasBody node = true → hasBodyBlock node = true

theorem bodiesOpen_append {first second : List Tree} :
    BodiesOpen (first ++ second) ↔ BodiesOpen first ∧ BodiesOpen second :=
  List.forall_mem_append

theorem bodiesOpen_cons {node : Tree} {rest : List Tree} :
    BodiesOpen (node :: rest) ↔
      (hasBody node = true → hasBodyBlock node = true) ∧ BodiesOpen rest :=
  List.forall_mem_cons

theorem commentsAmong_appendToLastBody {comments nodes : List Tree} (bodies : BodiesOpen nodes)
    (some_body : nodes.any hasBody = true) :
    (commentsAmong (appendToLastBody comments nodes)).Perm
      (commentsAmong comments ++ commentsAmong nodes) := by
  rcases bodiless_or_last nodes with none | ⟨before, body, footer, rfl, holds, none⟩
  · rw [List.any_eq_false.2 fun node member => by simp [none node member]] at some_body
    cases some_body
  · have adds (statements : List Tree) : (commentsAmong (statements ++ comments)).Perm
        (commentsAmong comments ++ commentsAmong statements) := by
      rw [commentsAmong_append]
      exact List.perm_append_comm
    have moved := commentsAmong_modifyBody holds (bodies body (by simp) holds) adds
    rw [appendToLastBody_eq holds none, commentsAmong_append, commentsAmong_cons,
      commentsAmong_append before, commentsAmong_cons body footer]
    apply ((moved.append_right _).append_left _).trans
    rw [List.append_assoc]
    exact List.perm_append_comm_assoc ..

theorem commentsAmong_hoistComments {pending done nodes : List Tree}
    (bodies : BodiesOpen (done ++ nodes)) (some_body : (done ++ nodes).any hasBody = true) :
    (commentsAmong (hoistComments pending done nodes)).Perm
      (commentsAmong pending ++ commentsAmong (done ++ nodes)) := by
  induction nodes generalizing pending done with
  | nil =>
      rw [List.append_nil] at bodies some_body ⊢
      rw [hoistComments_nil]
      split
      next none => simp [List.isEmpty_iff.1 none, commentsAmong]
      next => exact commentsAmong_appendToLastBody bodies some_body
  | cons node rest ih =>
      rw [hoistComments]
      split
      next comment =>
        have bodiless : hasBody node = false := by
          simp [hasBody, eq_of_beq comment]
        rw [bodiesOpen_append, bodiesOpen_cons] at bodies
        simp only [List.any_append, List.any_cons, bodiless, Bool.false_or] at some_body
        apply (ih (bodiesOpen_append.2 ⟨bodies.1, bodies.2.2⟩) (by simpa using some_body)).trans
        simp only [commentsAmong_append, commentsAmong_cons node rest, List.append_assoc]
        exact (List.perm_append_comm_assoc ..).append_left _
      next =>
        split
        next holds =>
          -- The pending comments are counted in the body from here on.
          rw [bodiesOpen_append, bodiesOpen_cons] at bodies
          have open_node := bodies.2.1 holds
          have moved := commentsAmong_modifyBody holds open_node
            (commentsAmong_insertComments pending)
          have changed : BodiesOpen [modifyBody (insertComments pending) node] := by
            simpa [BodiesOpen, hasBodyBlock_modifyBody] using fun _ => open_node
          have later := @ih [] _
            (bodiesOpen_append.2 ⟨bodiesOpen_append.2 ⟨bodies.1, changed⟩, bodies.2.2⟩)
            (by simp [hasBody_modifyBody, holds])
          apply later.trans
          have nothing : commentsAmong [] = [] := rfl
          rw [nothing, List.nil_append, List.append_assoc, commentsAmong_append,
            commentsAmong_append [_], commentsAmong_append done, commentsAmong_cons node rest]
          apply ((moved.append_right _).append_left _).trans
          rw [List.append_assoc]
          exact List.perm_append_comm_assoc ..
        next =>
          have later := @ih pending (done ++ [node]) (by simpa using bodies) (by simpa using some_body)
          simpa using later

def slot (tree : Tree) : Kind × Option String :=
  (tree.kind, tree.field)

theorem slot_modifyBody (f : List Tree → List Tree) (tree : Tree) :
    slot (modifyBody f tree) = slot tree := by
  rw [modifyBody]
  split <;> rfl

theorem Receives.slot_eq {before : Tree → Tree → Prop} {comments : List Tree} {tree changed : Tree}
    (receives : Receives before comments tree changed) : slot changed = slot tree := by
  induction receives with
  | unchanged => rfl
  | front _ _ _ _ ih | back _ _ _ ih => rw [slot_modifyBody, ih]

theorem slots_hoistComments (nodes : List Tree) :
    (hoistComments [] [] nodes).map slot = (nodes.filter (!isComment ·)).map slot := by
  have anyOrder : nodes.Pairwise fun _ _ => True := List.pairwise_of_forall fun _ _ => trivial
  rw [eq_comm, ← List.forall₂_eq_eq_eq, List.forall₂_map_left_iff, List.forall₂_map_right_iff]
  exact (receives_level anyOrder).imp fun _ _ receives => receives.slot_eq.symm

end Hoisting

section BlankRows

variable {source : Source}

theorem contents_of_blank {rows : List Tree} (blank : ∀ row ∈ rows, IsBlankLine row) :
    withoutLayouts rows = [] ∧ commentsAmong rows = [] := by
  induction rows with
  | nil => exact ⟨rfl, rfl⟩
  | cons row rest ih =>
      simp only [List.mem_cons, forall_eq_or_imp] at blank
      obtain ⟨kind, children⟩ := blank.1
      have other : row.kind ≠ .comment := by simp [kind]
      have layout : row.isLayout = true := by simp [isLayout, kind]
      constructor
      · rw [withoutLayouts, if_pos layout]
        exact (ih blank.2).1
      · rw [commentsAmong_cons, commentsAmong_other other, children, (ih blank.2).2]
        rfl

theorem contents_withBlankLines (finish next : Option Nat) (nodes : List Placed) :
    withoutLayouts (withBlankLines source finish next nodes) =
        withoutLayouts (nodes.map Placed.tree) ∧
      commentsAmong (withBlankLines source finish next nodes) =
        commentsAmong (nodes.map Placed.tree) := by
  have rows (first last : Option Nat) :
      withoutLayouts (rowsBetween source first last) = [] ∧
        commentsAmong (rowsBetween source first last) = [] :=
    contents_of_blank fun row member => isBlankLine_rowsBetween member
  induction nodes generalizing next with
  | nil =>
      rw [withBlankLines_nil]
      exact rows next finish
  | cons node rest ih =>
      obtain ⟨others, comments⟩ := ih (some (node.lastRow + 1))
      obtain ⟨noNodes, noComments⟩ := rows next (some node.firstRow)
      rw [withBlankLines_cons, withoutLayouts_append, commentsAmong_append, noNodes, noComments,
        List.map_cons, withoutLayouts_cons, commentsAmong_cons, others, comments]
      exact ⟨(withoutLayouts_cons _ _).symm, (commentsAmong_cons _ _).symm⟩

end BlankRows

end Layout

end NumericPython
