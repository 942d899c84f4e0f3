import Mathlib.Data.List.Forall2

set_option autoImplicit false

namespace NumericPython

variable {α β : Type} {r : α → β → Prop} {xs : List α} {ys : List β}

theorem exists_right (all : List.Forall₂ r xs ys) {x : α} (member : x ∈ xs) :
    ∃ y ∈ ys, r x y := by
  induction all with
  | nil => cases member
  | cons first _ ih =>
      rcases List.mem_cons.1 member with rfl | member
      · exact ⟨_, .head _, first⟩
      · obtain ⟨y, inside, related⟩ := ih member
        exact ⟨y, .tail _ inside, related⟩

theorem exists_left (all : List.Forall₂ r xs ys) {y : β} (member : y ∈ ys) : ∃ x ∈ xs, r x y :=
  exists_right all.flip member

theorem forall_left {holds : α → Prop} (all : List.Forall₂ (fun x _ => holds x) xs ys) :
    ∀ x ∈ xs, holds x := by
  intro x member
  obtain ⟨_, _, own⟩ := exists_right all member
  exact own

theorem forall_right {holds : β → Prop} (all : List.Forall₂ (fun _ y => holds y) xs ys) :
    ∀ y ∈ ys, holds y :=
  forall_left all.flip

variable {p : α → Bool} {front rest : List α}

theorem takeWhile_append_stop (all : ∀ x ∈ front, p x = true)
    (stops : ∀ x ∈ rest.head?, p x = false) : (front ++ rest).takeWhile p = front := by
  rw [List.takeWhile_append_of_pos all]
  cases rest with
  | nil => simp
  | cons x rest => simp [stops x rfl]

theorem dropWhile_append_stop (all : ∀ x ∈ front, p x = true)
    (stops : ∀ x ∈ rest.head?, p x = false) : (front ++ rest).dropWhile p = rest := by
  rw [List.dropWhile_append_of_pos all]
  cases rest with
  | nil => rfl
  | cons x rest => simp [stops x rfl]

end NumericPython
