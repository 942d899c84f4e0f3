import NumericPython.Proofs.Printing.Printable

set_option autoImplicit false

namespace NumericPython

namespace Printing

/-- The same lines, except that decorators above a definition may have changed places. -/
inductive Reordered : List Line → List Line → Prop
  | refl (lines : List Line) : Reordered lines lines
  | cons (line : Line) {left right : List Line} :
    Reordered left right → Reordered (line :: left) (line :: right)
  | swap (level : Nat) {first second : String × List Expr} {text text' : String}
      (lines : List Line) :
    decoratorText first = .ok text → decoratorText second = .ok text' →
      Reordered (.text level text :: .text level text' :: lines)
        (.text level text' :: .text level text :: lines)
  | trans {left middle right : List Line} :
    Reordered left middle → Reordered middle right → Reordered left right

namespace Reordered

variable {left right left' right' : List Line}

theorem symm (same : Reordered left right) : Reordered right left := by
  induction same with
  | refl lines => exact .refl lines
  | cons line _ ih => exact .cons line ih
  | swap level lines first second => exact .swap level lines second first
  | trans _ _ first second => exact .trans second first

theorem append_left (lines : List Line) (same : Reordered left right) :
    Reordered (lines ++ left) (lines ++ right) := by
  induction lines with
  | nil => exact same
  | cons line rest ih => exact .cons line ih

theorem append_right (same : Reordered left right) (lines : List Line) :
    Reordered (left ++ lines) (right ++ lines) := by
  induction same with
  | refl _ => exact .refl _
  | cons line _ ih => exact .cons line ih
  | swap level others first second => exact .swap level (others ++ lines) first second
  | trans _ _ first second => exact .trans first second

theorem append (first : Reordered left right) (second : Reordered left' right') :
    Reordered (left ++ left') (right ++ right') :=
  (first.append_right left').trans (second.append_left right)

theorem of_perm (level : Nat) {texts texts' : List String} (perm : texts.Perm texts')
    (written : ∀ text ∈ texts, ∃ decorator, decoratorText decorator = .ok text) :
    Reordered (texts.map (.text level)) (texts'.map (.text level)) := by
  induction perm with
  | nil => exact .refl []
  | cons text _ ih =>
      exact .cons _ (ih fun other member => written other (List.mem_cons_of_mem _ member))
  | swap first second rest =>
      obtain ⟨_, firstWritten⟩ := written first (by simp)
      obtain ⟨_, secondWritten⟩ := written second (by simp)
      exact .swap level _ secondWritten firstWritten
  | trans first _ ih ih' =>
      exact .trans (ih written) (ih' fun text member => written text (first.mem_iff.2 member))

end Reordered

/-- Two things are both printed, as `same` says, or neither is. The same error is reported then,
unless both errors are to be blamed on something else. -/
def Alike {α β : Type} (blamed : PrintError → Prop) (same : α → β → Prop) :
    Printed α → Printed β → Prop
  | .ok left, .ok right => same left right
  | .error cause, .error cause' => cause = cause' ∨ blamed cause ∧ blamed cause'
  | _, _ => False

namespace Alike

variable {α β γ δ : Type} {blamed : PrintError → Prop}

theorem refl {same : α → α → Prop} (all : ∀ part, same part part) (written : Printed α) :
    Alike blamed same written written := by
  cases written with
  | error cause => exact .inl rfl
  | ok part => exact all part

theorem symm {same : α → β → Prop} {same' : β → α → Prop}
    (back : ∀ left right, same left right → same' right left) {left : Printed α}
    {right : Printed β} (alike : Alike blamed same left right) : Alike blamed same' right left := by
  cases left <;> cases right
  case error.error => exact alike.imp Eq.symm And.symm
  case ok.ok => exact back _ _ alike
  all_goals exact alike

theorem trans {same : α → α → Prop}
    (chain : ∀ left middle right, same left middle → same middle right → same left right)
    {left middle right : Printed α} (first : Alike blamed same left middle)
    (second : Alike blamed same middle right) : Alike blamed same left right := by
  cases left <;> cases middle <;> cases right
  case error.error.error =>
    obtain rfl | ⟨blame, blame'⟩ := first
    · exact second
    · obtain rfl | ⟨_, blame''⟩ := second
      · exact .inr ⟨blame, blame'⟩
      · exact .inr ⟨blame, blame''⟩
  case ok.ok.ok => exact chain _ _ _ first second
  all_goals first | exact first.elim | exact second.elim

theorem bind {same : α → β → Prop} {same' : γ → δ → Prop} {left : Printed α} {right : Printed β}
    {next : α → Printed γ} {next' : β → Printed δ} (first : Alike blamed same left right)
    (goes : ∀ part part', same part part' → Alike blamed same' (next part) (next' part')) :
    Alike blamed same' (left >>= next) (right >>= next') := by
  cases left <;> cases right
  case error.error => exact first
  case ok.ok => exact goes _ _ first
  all_goals exact first.elim

theorem bind_same {same : γ → δ → Prop} (written : Printed α) {next : α → Printed γ}
    {next' : α → Printed δ} (goes : ∀ part, Alike blamed same (next part) (next' part)) :
    Alike blamed same (written >>= next) (written >>= next') := by
  cases written with
  | error cause => exact .inl rfl
  | ok part => exact goes part

theorem map {same : α → β → Prop} {same' : γ → δ → Prop} {left : Printed α} {right : Printed β}
    {f : α → γ} {g : β → δ} (alike : Alike blamed same left right)
    (carries : ∀ part part', same part part' → same' (f part) (g part')) :
    Alike blamed same' (left.map f) (right.map g) := by
  cases left <;> cases right
  case error.error => exact alike
  case ok.ok => exact carries _ _ alike
  all_goals exact alike.elim

-- What is known of the left side besides its being printed may be used on the way.
theorem imp {same same' : α → β → Prop} {left : Printed α} {right : Printed β}
    (alike : Alike blamed same left right)
    (weaker : ∀ part part', left = .ok part → same part part' → same' part part') :
    Alike blamed same' left right := by
  cases left <;> cases right
  case ok.ok => exact weaker _ _ rfl alike
  all_goals exact alike

theorem mapM_perm {f : α → Printed β} {xs ys : List α} (perm : xs.Perm ys)
    (each : ∀ x ∈ xs, ∀ cause, f x = .error cause → blamed cause) :
    Alike blamed List.Perm (xs.mapM f) (ys.mapM f) := by
  induction perm with
  | nil => exact refl List.Perm.refl _
  | cons x _ ih =>
      rw [List.mapM_cons, List.mapM_cons]
      refine .bind_same _ fun part => ?_
      exact .bind (ih fun y member => each y (List.mem_cons_of_mem _ member))
        fun parts parts' same => List.Perm.cons part same
  | swap x y rest =>
      simp only [List.mapM_cons]
      cases first : f x with
      | error cause =>
          cases second : f y with
          -- Each order reports the fault that it comes to first.
          | error cause' => exact .inr ⟨each y (by simp) _ second, each x (by simp) _ first⟩
          | ok part' => exact .inl rfl
      | ok part =>
          cases second : f y with
          | error cause' => exact .inl rfl
          | ok part' =>
              cases rest.mapM f with
              | error cause' => exact .inl rfl
              | ok parts => exact List.Perm.swap part part' parts
  | trans first _ ih ih' =>
      have rest := ih' fun y member => each y (first.mem_iff.2 member)
      have chain : ∀ left middle right : List β,
          left.Perm middle → middle.Perm right → left.Perm right := fun _ _ _ => List.Perm.trans
      exact trans chain (ih each) rest

end Alike

end Printing

end NumericPython
