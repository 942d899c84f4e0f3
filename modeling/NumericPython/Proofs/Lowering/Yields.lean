import NumericPython.Proofs.Lists
import NumericPython.Proofs.Lowering.Children
import NumericPython.Proofs.Lowering.Records

set_option autoImplicit false

namespace NumericPython.Lowering

variable {α β : Type}

def Ensures (post : α → Prop) (reading : Lowered α) : Prop :=
  ∀ result, reading = .ok result → post result

def Yields (post : α → Prop) (action : LowerM α) : Prop :=
  ∀ table, Ensures post (action.run.run table).1

theorem ensures_ok {post : α → Prop} {result : α} (holds : post result) :
    Ensures post (.ok result) := by
  intro other same
  cases same
  exact holds

theorem ensures_error {post : α → Prop} (cause : LowerError) : Ensures post (.error cause) := by
  intro result same
  cases same

theorem Ensures.weaken {weak strong : α → Prop} {reading : Lowered α}
    (holds : Ensures strong reading) (implies : ∀ result, strong result → weak result) :
    Ensures weak reading :=
  fun result same => implies result (holds result same)

theorem ensures_bind {mid : α → Prop} {post : β → Prop} {reading : Lowered α}
    {next : α → Lowered β} (first : Ensures mid reading)
    (second : ∀ result, mid result → Ensures post (next result)) :
    Ensures post (reading >>= next) := by
  cases reading with
  | error cause => exact ensures_error cause
  | ok value => exact second value (first value rfl)

theorem ensures_map {mid : α → Prop} {post : β → Prop} {reading : Lowered α} {f : α → β}
    (holds : Ensures mid reading) (maps : ∀ result, mid result → post (f result)) :
    Ensures post (reading.map f) := by
  cases reading with
  | error cause => exact ensures_error cause
  | ok value => exact ensures_ok (maps value (holds value rfl))

theorem ensures_true (reading : Lowered α) : Ensures (fun _ => True) reading :=
  fun _ _ => trivial

theorem ensures_required {post : α → Prop} {kind : Kind} {span : Span} {field : String}
    {reading? : Option (Lowered α)} (holds : ∀ reading ∈ reading?, Ensures post reading) :
    Ensures post (required kind span field reading?) := by
  cases reading? with
  | none => exact ensures_error _
  | some reading => exact holds reading rfl

section Lists

variable {related : α → β → Prop} {xs : List α} {ys : List β}

theorem ensures_forall₂ {f : α → Lowered β} (each : ∀ x ∈ xs, Ensures (related x) (f x)) :
    Ensures (List.Forall₂ related xs) (xs.mapM f) := by
  induction xs with
  | nil => exact ensures_ok .nil
  | cons x rest ih =>
      rw [List.forall_mem_cons] at each
      rw [List.mapM_cons]
      refine ensures_bind each.1 fun y first => ?_
      exact ensures_bind (ih each.2) fun ys others => ensures_ok (.cons first others)

theorem ensures_mapM {post : β → Prop} {f : α → Lowered β}
    (holds : ∀ x ∈ xs, Ensures post (f x)) :
    Ensures (fun ys => ∀ y ∈ ys, post y) (xs.mapM f) :=
  (ensures_forall₂ holds).weaken fun _ => forall_right

theorem ensures_each {holds : α → Prop} {f : α → Lowered β}
    (reads : ∀ x ∈ xs, Ensures (fun _ => holds x) (f x)) :
    Ensures (fun _ => ∀ x ∈ xs, holds x) (xs.mapM f) :=
  (ensures_forall₂ reads).weaken fun _ => forall_left

theorem ensures_length (f : α → Lowered β) (xs : List α) :
    Ensures (fun ys => ys.length = xs.length) (xs.mapM f) := by
  refine (ensures_forall₂ fun x _ => ensures_true (f x)).weaken ?_
  exact fun _ all => all.length_eq.symm

end Lists

theorem yields_pure {post : α → Prop} {result : α} (holds : post result) :
    Yields post (pure result) :=
  fun _ => ensures_ok holds

theorem yields_lift {post : α → Prop} {reading : Lowered α} (holds : Ensures post reading) :
    Yields post (lift reading) :=
  fun _ => holds

theorem yields_refuse {post : α → Prop} (cause : LowerError) : Yields post (refuse cause) :=
  yields_lift (ensures_error cause)

theorem Yields.weaken {weak strong : α → Prop} {action : LowerM α} (holds : Yields strong action)
    (implies : ∀ result, strong result → weak result) : Yields weak action :=
  fun table => (holds table).weaken implies

theorem yields_bind {mid : α → Prop} {post : β → Prop} {action : LowerM α} {next : α → LowerM β}
    (first : Yields mid action) (second : ∀ result, mid result → Yields post (next result)) :
    Yields post (action >>= next) := by
  intro table
  rw [run_bind]
  have here := first table
  rcases outcome : action.run.run table with ⟨cause | result, after⟩
  · exact ensures_error cause
  · rw [outcome] at here
    exact second result (here result rfl) after

theorem yields_forall₂ {related : α → β → Prop} {f : α → LowerM β} {xs : List α}
    (each : ∀ x ∈ xs, Yields (related x) (f x)) :
    Yields (List.Forall₂ related xs) (xs.mapM f) := by
  induction xs with
  | nil => exact yields_pure .nil
  | cons x rest ih =>
      rw [List.forall_mem_cons] at each
      rw [List.mapM_cons]
      refine yields_bind each.1 fun y first => ?_
      exact yields_bind (ih each.2) fun ys others => yields_pure (.cons first others)

theorem yields_mapM {post : β → Prop} {f : α → LowerM β} {xs : List α}
    (holds : ∀ x ∈ xs, Yields post (f x)) :
    Yields (fun ys => ∀ y ∈ ys, post y) (xs.mapM f) :=
  (yields_forall₂ holds).weaken fun _ => forall_right

theorem yields_each {holds : α → Prop} {f : α → LowerM β} {xs : List α}
    (acts : ∀ x ∈ xs, Yields (fun _ => holds x) (f x)) :
    Yields (fun _ => ∀ x ∈ xs, holds x) (xs.mapM f) :=
  (yields_forall₂ acts).weaken fun _ => forall_left

theorem yields_record (bindings : List (String × IntrinsicFunction)) :
    Yields (fun _ => True) (record bindings) :=
  fun _ => ensures_true _

theorem yields_required {post : α → Prop} {kind : Kind} {span : Span} {field : String}
    {action? : Option (LowerM α)} (holds : ∀ action ∈ action?, Yields post action) :
    Yields post (requiredM kind span field action?) := by
  cases action? with
  | none => exact yields_refuse _
  | some action => exact holds action rfl

end NumericPython.Lowering
