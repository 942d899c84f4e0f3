import NumericPython.Lowering.Stmt

set_option autoImplicit false

namespace NumericPython.Lowering

abbrev Bindings := List (String × IntrinsicFunction)

variable {α β : Type}

-- What follows an action runs on the table that the action leaves.
theorem run_bind (action : LowerM α) (next : α → LowerM β) (table : ImportTable) :
    (action >>= next).run.run table =
      match action.run.run table with
      | (.ok result, after) => (next result).run.run after
      | (.error cause, after) => (.error cause, after) := by
  simp only [ExceptT.run_bind, StateT.run_bind]
  rcases action.run.run table with ⟨cause | result, after⟩
  · rfl
  · rfl

/-- The action enters bindings into whatever table there is, and has an outcome. -/
def Enters (action : LowerM α) (outcome : Lowered α) (entered : Bindings) : Prop :=
  ∀ table, action.run.run table = (outcome, table.insertAll entered)

theorem enters_lift (reading : Lowered α) : Enters (lift reading) reading [] :=
  fun _ => rfl

theorem enters_record (bindings : Bindings) : Enters (record bindings) (.ok ()) bindings :=
  fun _ => rfl

theorem Enters.bind_ok {action : LowerM α} {next : α → LowerM β} {result : α}
    {outcome : Lowered β} {entered later : Bindings} (first : Enters action (.ok result) entered)
    (second : Enters (next result) outcome later) :
    Enters (action >>= next) outcome (entered ++ later) := by
  intro table
  rw [run_bind, first table]
  dsimp only
  rw [second, Table.insertAll_append]

theorem Enters.bind_error {action : LowerM α} {next : α → LowerM β} {cause : LowerError}
    {entered : Bindings} (first : Enters action (.error cause) entered) :
    Enters (action >>= next) (.error cause) entered := by
  intro table
  rw [run_bind, first table]

def Records (before : Bindings) (bindings : α → Bindings) (action : LowerM α) : Prop :=
  ∃ outcome entered, Enters action outcome entered ∧
    ∀ result, outcome = .ok result → bindings result = before ++ entered

theorem records_lift {before : Bindings} {bindings : α → Bindings} {reading : Lowered α}
    (none_new : ∀ result, reading = .ok result → bindings result = before) :
    Records before bindings (lift reading) := by
  refine ⟨reading, [], enters_lift reading, ?_⟩
  intro result same
  rw [List.append_nil, none_new result same]

theorem records_pure {before : Bindings} {bindings : α → Bindings} {result : α}
    (none_new : bindings result = before) : Records before bindings (pure result) :=
  records_lift fun _ same => by cases same; exact none_new

theorem records_refuse {before : Bindings} {bindings : α → Bindings} (cause : LowerError) :
    Records before bindings (refuse cause) :=
  records_lift fun _ same => by cases same

theorem records_record (before bindings : Bindings) :
    Records before (fun _ => before ++ bindings) (record bindings) :=
  ⟨.ok (), bindings, enters_record bindings, fun _ _ => rfl⟩

theorem records_bind {before : Bindings} {middle : α → Bindings} {bindings : β → Bindings}
    {action : LowerM α} {next : α → LowerM β} (first : Records before middle action)
    (second : ∀ result, Records (middle result) bindings (next result)) :
    Records before bindings (action >>= next) := by
  obtain ⟨outcome, entered, enters, told⟩ := first
  cases outcome with
  | error cause => exact ⟨.error cause, entered, enters.bind_error, fun _ same => by cases same⟩
  | ok result =>
      obtain ⟨outcome', later, enters', told'⟩ := second result
      refine ⟨outcome', entered ++ later, enters.bind_ok enters', ?_⟩
      intro final same
      rw [told' final same, told result rfl, List.append_assoc]

theorem records_after {before : Bindings} {bindings : β → Bindings} {reading : Lowered α}
    {next : α → LowerM β} (second : ∀ result, Records before bindings (next result)) :
    Records before bindings (lift reading >>= next) :=
  records_bind (records_lift fun _ _ => rfl) second

theorem records_required {before : Bindings} {bindings : α → Bindings} {kind : Kind} {span : Span}
    {field : String} {action? : Option (LowerM α)}
    (each : ∀ action ∈ action?, Records before bindings action) :
    Records before bindings (requiredM kind span field action?) := by
  cases action? with
  | none => exact records_refuse _
  | some action => exact each action rfl

end NumericPython.Lowering
