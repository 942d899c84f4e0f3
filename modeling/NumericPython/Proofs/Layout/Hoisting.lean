import NumericPython.Proofs.Layout.Reading
import NumericPython.Proofs.Lists

set_option autoImplicit false

namespace NumericPython.Layout

open NumericPython.Tree

def isComment (tree : Tree) : Bool :=
  tree.kind == .comment

def hasBodyBlock (tree : Tree) : Bool :=
  tree.kind == .block || tree.children.any isBodyBlock

def bodyOf (tree : Tree) : List Tree :=
  if tree.kind == .block then tree.children
  else ((tree.children.find? isBodyBlock).map Tree.children).getD []

def beforeBody (tree : Tree) : List Tree :=
  if tree.kind == .block then [] else tree.children.takeWhile (!isBodyBlock ·)

def afterBody (tree : Tree) : List Tree :=
  if tree.kind == .block then [] else (tree.children.dropWhile (!isBodyBlock ·)).tail

/-- Going to the front of the body, a comment of the header would pass a node that starts after it. -/
def PassesForward (header : List Tree) (body : Tree) : Prop :=
  hasBodyBlock body = true ∧ ∃ comment ∈ header, isComment comment = true ∧
    ∃ node ∈ readings false (header ++ beforeBody body), comment.place < node.place

/-- Going to the end of the body, a comment behind it would pass a node that starts before it. -/
def PassesBack (body : Tree) (footer : List Tree) : Prop :=
  hasBodyBlock body = true ∧ ∃ comment ∈ footer, isComment comment = true ∧
    ∃ node ∈ readings false (afterBody body ++ footer), node.place < comment.place

def CarriesForward (nodes : List Tree) : Prop :=
  ∃ before header body after, nodes = before ++ header ++ body :: after ∧
    (∀ tree ∈ header, hasBody tree = false) ∧ hasBody body = true ∧ PassesForward header body

def CarriesBack (nodes : List Tree) : Prop :=
  ∃ before body footer, nodes = before ++ body :: footer ∧
    (∀ tree ∈ footer, hasBody tree = false) ∧ hasBody body = true ∧ PassesBack body footer

theorem CarriesForward.append {nodes : List Tree} (carries : CarriesForward nodes)
    (front : List Tree) : CarriesForward (front ++ nodes) := by
  obtain ⟨before, header, body, after, rfl, rest⟩ := carries
  exact ⟨front ++ before, header, body, after, by simp, rest⟩

theorem CarriesBack.append {nodes : List Tree} (carries : CarriesBack nodes)
    (front : List Tree) : CarriesBack (front ++ nodes) := by
  obtain ⟨before, body, footer, rfl, rest⟩ := carries
  exact ⟨front ++ before, body, footer, by simp, rest⟩

section ModifyFirst

variable {α : Type} {p : α → Bool} {f : α → α}

theorem modifyFirst_of_none {xs : List α} (none : ∀ x ∈ xs, p x = false) :
    modifyFirst p f xs = xs := by
  induction xs with
  | nil => rfl
  | cons x xs ih =>
      simp only [List.mem_cons, forall_eq_or_imp] at none
      simp [modifyFirst, none.1, ih none.2]

theorem modifyFirst_same (same : ∀ x, f x = x) (xs : List α) : modifyFirst p f xs = xs := by
  induction xs with
  | nil => rfl
  | cons x xs ih => simp [modifyFirst, same, ih]

theorem modifyFirst_modifyFirst {g : α → α} (keeps : ∀ x, p (f x) = p x) (xs : List α) :
    modifyFirst p g (modifyFirst p f xs) = modifyFirst p (fun x => g (f x)) xs := by
  induction xs with
  | nil => rfl
  | cons x xs ih =>
      by_cases holds : p x = true
      · simp [modifyFirst, holds, keeps]
      · simp [modifyFirst, holds, ih]

theorem any_modifyFirst (keeps : ∀ x, p (f x) = p x) (xs : List α) :
    (modifyFirst p f xs).any p = xs.any p := by
  induction xs with
  | nil => rfl
  | cons x xs ih => by_cases holds : p x = true <;> simp [modifyFirst, holds, keeps, ih]

theorem tail_dropWhile_modifyFirst (keeps : ∀ x, p (f x) = p x) (xs : List α) :
    ((modifyFirst p f xs).dropWhile (!p ·)).tail = (xs.dropWhile (!p ·)).tail := by
  induction xs with
  | nil => rfl
  | cons x xs ih => by_cases holds : p x = true <;> simp [modifyFirst, holds, keeps, ih]

theorem modifyFirst_append {xs ys : List α} {y : α} (none : ∀ x ∈ xs, p x = false)
    (first : p y = true) : modifyFirst p f (xs ++ y :: ys) = xs ++ f y :: ys := by
  induction xs with
  | nil => simp [modifyFirst, first]
  | cons x xs ih =>
      simp only [List.mem_cons, forall_eq_or_imp] at none
      simp [modifyFirst, none.1, ih none.2]

theorem none_or_first (p : α → Bool) (xs : List α) :
    (∀ x ∈ xs, p x = false) ∨
      ∃ before y after, xs = before ++ y :: after ∧ (∀ x ∈ before, p x = false) ∧ p y = true := by
  induction xs with
  | nil => simp
  | cons x xs ih =>
      rcases holds : p x with _ | _
      · rcases ih with none | ⟨before, y, after, rfl, none, first⟩
        · exact .inl (by simpa using ⟨holds, none⟩)
        · exact .inr ⟨x :: before, y, after, rfl, by simpa using ⟨holds, none⟩, first⟩
      · exact .inr ⟨[], x, xs, rfl, by simp, holds⟩

end ModifyFirst

theorem ne_comment_of_hasBody {tree : Tree} (body : hasBody tree = true) :
    isComment tree = false := by
  simp only [hasBody, Bool.or_eq_true, Bool.and_eq_true, beq_iff_eq] at body
  rcases body with block | ⟨function | cls, _⟩
  · simp [isComment, block]
  · simp [isComment, function]
  · simp [isComment, cls]

theorem reading_modifyBody {tree : Tree} (body : hasBody tree = true)
    (block : hasBodyBlock tree = true) (f : List Tree → List Tree) :
    (modifyBody f tree).reading false =
      readings false (beforeBody tree) ++ readings true (f (bodyOf tree)) ++
        readings false (afterBody tree) := by
  obtain ⟨kind, span, text, field, children⟩ := tree
  by_cases isBlock : kind = .block
  · subst isBlock
    simp [modifyBody, beforeBody, afterBody, bodyOf, reading_inner, Kind.holdsStatements]
  · have plain : kind.holdsStatements = false := by
      simp only [hasBody, isBlock, beq_iff_eq, Bool.or_eq_true, Bool.and_eq_true, false_or] at body
      rcases body.1 with rfl | rfl <;> rfl
    simp only [hasBodyBlock, isBlock, beq_iff_eq, Bool.or_eq_true, false_or] at block
    rcases none_or_first isBodyBlock children with none | ⟨before, inner, after, rfl, none, first⟩
    · obtain ⟨child, member, isBody⟩ := List.any_eq_true.1 block
      rw [none child member] at isBody
      cases isBody
    · -- The children are split at the first block that is the body.
      have takes : (before ++ inner :: after).takeWhile (!isBodyBlock ·) = before :=
        takeWhile_append_stop (by simpa using none) (by simp [first])
      have drops : (before ++ inner :: after).dropWhile (!isBodyBlock ·) = inner :: after :=
        dropWhile_append_stop (by simpa using none) (by simp [first])
      have finds : (before ++ inner :: after).find? isBodyBlock = some inner := by
        rw [List.find?_append, List.find?_eq_none.2 (by simpa using none)]
        simp [first]
      have isBlockKind : inner.kind = .block := by
        simp only [isBodyBlock, Bool.and_eq_true, beq_iff_eq] at first
        exact first.2
      simp only [modifyBody, beforeBody, afterBody, bodyOf, isBlock, beq_iff_eq, if_false,
        modifyFirst_append none first, takes, drops, finds]
      obtain ⟨innerKind, innerSpan, innerText, innerField, innerChildren⟩ := inner
      simp only at isBlockKind
      subst isBlockKind
      rw [reading_inner, plain, readings_append, readings_cons, reading_inner]
      simp [Kind.holdsStatements]

theorem modifyBody_id (tree : Tree) : modifyBody id tree = tree := by
  have same (b : Tree) : ({ b with children := id b.children } : Tree) = b := by cases b; rfl
  rw [modifyBody, modifyFirst_same same]
  split
  · exact same tree
  · exact same tree

theorem modifyBody_modifyBody (f g : List Tree → List Tree) (tree : Tree) :
    modifyBody g (modifyBody f tree) = modifyBody (fun nodes => g (f nodes)) tree := by
  by_cases block : tree.kind = .block
  · simp [modifyBody, block]
  · have twice := modifyFirst_modifyFirst (p := isBodyBlock)
      (f := fun b => { b with children := f b.children })
      (g := fun b => { b with children := g b.children }) (fun _ => rfl) tree.children
    simp [modifyBody, block, twice]

theorem reading_split {tree : Tree} (body : hasBody tree = true)
    (block : hasBodyBlock tree = true) :
    tree.reading false =
      readings false (beforeBody tree) ++ readings true (bodyOf tree) ++
        readings false (afterBody tree) := by
  have split := reading_modifyBody body block id
  rwa [modifyBody_id] at split

theorem modifyBody_of_no_block {tree : Tree} (block : hasBodyBlock tree = false)
    (f : List Tree → List Tree) : modifyBody f tree = tree := by
  simp only [hasBodyBlock, Bool.or_eq_false_iff, beq_eq_false_iff_ne, List.any_eq_false] at block
  have none : ∀ child ∈ tree.children, isBodyBlock child = false := by simpa using block.2
  obtain ⟨kind, span, text, field, children⟩ := tree
  simp only at block none
  simp [modifyBody, block.1, modifyFirst_of_none none]

theorem bodyOf_of_no_block {tree : Tree} (block : hasBodyBlock tree = false) :
    bodyOf tree = [] ∧ afterBody tree = [] := by
  simp only [hasBodyBlock, Bool.or_eq_false_iff, List.any_eq_false, Bool.not_eq_true] at block
  have finds : tree.children.find? isBodyBlock = none :=
    List.find?_eq_none.2 (by simpa using block.2)
  have drops : tree.children.dropWhile (!isBodyBlock ·) = [] := by
    rw [← List.append_nil tree.children, List.dropWhile_append_of_pos (by simpa using block.2)]
    rfl
  simp [bodyOf, afterBody, block.1, finds, drops]

section Hoisted

theorem hoistComments_header {header : List Tree} (bodiless : ∀ tree ∈ header, hasBody tree = false)
    (pending done rest : List Tree) :
    hoistComments pending done (header ++ rest) =
      hoistComments (pending ++ header.filter isComment) (done ++ header.filter (!isComment ·))
        rest := by
  -- The nodes between two bodies are passed, and the comments among them are kept for later.
  induction header generalizing pending done with
  | nil => simp
  | cons tree header ih =>
      simp only [List.mem_cons, forall_eq_or_imp] at bodiless
      rw [List.cons_append, hoistComments]
      by_cases comment : tree.kind = .comment
      · simp [comment, isComment, ih bodiless.2]
      · simp [comment, isComment, bodiless.1, ih bodiless.2]

theorem hoistComments_body {body : Tree} (holds : hasBody body = true)
    (pending done rest : List Tree) :
    hoistComments pending done (body :: rest) =
      hoistComments [] (done ++ [modifyBody (insertComments pending) body]) rest := by
  have other : body.kind ≠ .comment := by simpa [isComment] using ne_comment_of_hasBody holds
  simp [hoistComments, other, holds]

theorem hoistComments_nil (pending done : List Tree) :
    hoistComments pending done [] =
      if pending.isEmpty then done else appendToLastBody pending done := by
  rw [hoistComments]

theorem appendToLastBody_eq {body : Tree} {footer : List Tree} (holds : hasBody body = true)
    (bodiless : ∀ tree ∈ footer, hasBody tree = false) (comments before : List Tree) :
    appendToLastBody comments (before ++ body :: footer) =
      before ++ modifyBody (· ++ comments) body :: footer := by
  have last : ∀ tree ∈ footer.reverse, hasBody tree = false := by simpa using bodiless
  simp [appendToLastBody, modifyFirst_append last holds]

theorem appendToLastBody_of_none {nodes : List Tree}
    (bodiless : ∀ tree ∈ nodes, hasBody tree = false) (comments : List Tree) :
    appendToLastBody comments nodes = nodes := by
  have last : ∀ tree ∈ nodes.reverse, hasBody tree = false := by simpa using bodiless
  simp [appendToLastBody, modifyFirst_of_none last]

theorem hasBody_modifyBody {tree : Tree} (f : List Tree → List Tree) :
    hasBody (modifyBody f tree) = hasBody tree := by
  have fields (children : List Tree) :
      ((modifyFirst isBodyBlock (fun b => { b with children := f b.children }) children).find?
        (·.fills "body")).isSome = (children.find? (·.fills "body")).isSome := by
    induction children with
    | nil => rfl
    | cons child rest ih =>
        by_cases block : isBodyBlock child = true
        · by_cases fills : child.fills "body" = true <;> simp_all [modifyFirst, Tree.fills]
        · by_cases fills : child.fills "body" = true <;> simp_all [modifyFirst]
  by_cases block : tree.kind = .block
  · simp [modifyBody, hasBody, block]
  · simp [modifyBody, hasBody, block, Tree.child?, fields]

theorem passesBack_modifyBody {body : Tree} {f : List Tree → List Tree} {footer : List Tree} :
    PassesBack (modifyBody f body) footer ↔ PassesBack body footer := by
  have keeps (b : Tree) : isBodyBlock { b with children := f b.children } = isBodyBlock b := rfl
  have block : hasBodyBlock (modifyBody f body) = hasBodyBlock body := by
    by_cases kind : body.kind = .block
    · simp [modifyBody, hasBodyBlock, kind]
    · simp [modifyBody, hasBodyBlock, kind, any_modifyFirst keeps]
  have after : afterBody (modifyBody f body) = afterBody body := by
    by_cases kind : body.kind = .block
    · simp [modifyBody, afterBody, kind]
    · simp [modifyBody, afterBody, kind, tail_dropWhile_modifyFirst keeps]
  rw [PassesBack, PassesBack, block, after]

end Hoisted

section Received

variable {before : Tree → Tree → Prop} {comments : List Tree}

/-- A node of a level, and what it is once comments have moved: those from `before` the node may have
gone to the front of its body, and any of them to its end. -/
inductive Receives (before : Tree → Tree → Prop) (comments : List Tree) : Tree → Tree → Prop
  | unchanged (tree : Tree) : Receives before comments tree tree
  | front {tree changed : Tree} {moved : List Tree} (sofar : Receives before comments tree changed)
      (holds : hasBody changed = true) (among : ∀ comment ∈ moved, comment ∈ comments)
      (early : ∀ comment ∈ moved, before comment tree) :
      Receives before comments tree (modifyBody (insertComments moved) changed)
  | back {tree changed : Tree} {moved : List Tree} (sofar : Receives before comments tree changed)
      (holds : hasBody changed = true) (among : ∀ comment ∈ moved, comment ∈ comments) :
      Receives before comments tree (modifyBody (· ++ moved) changed)

theorem forall₂_modifyFirst {α β : Type} {r : α → β → Prop} {p : β → Bool} {f : β → β}
    {xs : List α} {ys : List β} (all : List.Forall₂ r xs ys)
    (changes : ∀ x y, r x y → p y = true → r x (f y)) :
    List.Forall₂ r xs (modifyFirst p f ys) := by
  induction all with
  | nil => exact .nil
  | cons first others ih =>
      rw [modifyFirst]
      split
      next holds => exact .cons (changes _ _ first holds) others
      next => exact .cons first ih

theorem receives_hoistComments {origins pending done nodes : List Tree}
    (sofar : List.Forall₂ (Receives before comments) origins done)
    (kept : ∀ comment ∈ pending, comment ∈ comments)
    (own : ∀ node ∈ nodes, isComment node = true → node ∈ comments)
    (order : (pending ++ nodes).Pairwise before) :
    List.Forall₂ (Receives before comments) (origins ++ nodes.filter (!isComment ·))
      (hoistComments pending done nodes) := by
  induction nodes generalizing origins pending done with
  | nil =>
      rw [hoistComments_nil, List.filter_nil, List.append_nil]
      split
      · exact sofar
      · rw [appendToLastBody, ← List.reverse_reverse origins, List.forall₂_reverse_iff]
        apply forall₂_modifyFirst (List.forall₂_reverse_iff.2 sofar)
        exact fun _ _ receives holds => receives.back holds kept
  | cons child rest ih =>
      simp only [List.mem_cons, forall_eq_or_imp] at own
      have later : (pending ++ rest).Pairwise before :=
        order.sublist ((List.sublist_cons_self ..).append_left _)
      have plain (changed : Tree) (receives : Receives before comments child changed) :
          List.Forall₂ (Receives before comments) (origins ++ [child]) (done ++ [changed]) :=
        List.rel_append sofar (.cons receives .nil)
      rw [hoistComments]
      split
      next comment =>
        rw [List.filter_cons_of_neg (by simpa [isComment] using comment)]
        apply ih sofar _ own.2 (by simpa using order)
        exact List.forall_mem_append.2 ⟨kept, List.forall_mem_singleton.2 (own.1 comment)⟩
      next other =>
        rw [List.filter_cons_of_pos (by simpa [isComment] using other), List.append_cons]
        split
        next holds =>
          have early : ∀ comment ∈ pending, before comment child := fun comment member =>
            (List.pairwise_append.1 order).2.2 comment member child (.head _)
          apply ih (plain _ ((Receives.unchanged child).front holds kept early)) (by simp) own.2
          exact (List.pairwise_append.1 later).2.1
        next => exact ih (plain child (.unchanged child)) kept own.2 later

theorem receives_level {nodes : List Tree} (order : nodes.Pairwise before) :
    List.Forall₂ (Receives before (nodes.filter isComment)) (nodes.filter (!isComment ·))
      (hoistComments [] [] nodes) :=
  receives_hoistComments .nil (by simp) (fun _ inside kind => List.mem_filter.2 ⟨inside, kind⟩) order

theorem receives_any (pending done nodes : List Tree) :
    List.Forall₂ (Receives (fun _ _ => True) (pending ++ nodes)) (done ++ nodes.filter (!isComment ·))
      (hoistComments pending done nodes) :=
  receives_hoistComments (List.forall₂_same.2 fun tree _ => .unchanged tree)
    (fun _ => List.mem_append_left _) (fun _ member _ => List.mem_append_right _ member)
    (List.pairwise_of_forall fun _ _ => trivial)

end Received

end NumericPython.Layout
