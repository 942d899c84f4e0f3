import NumericPython.Lowering.Session
import NumericPython.Proofs.Lowering.ImportTable

set_option autoImplicit false

namespace NumericPython.Lowering

variable {α β : Type} {frontEnd : FrontEnd}

theorem Enters.map {action : LowerM α} {outcome : Lowered α} {entered : Bindings}
    (enters : Enters action outcome entered) (f : α → β) :
    Enters (f <$> action) (outcome.map f) entered := by
  rw [map_eq_pure_bind]
  cases outcome with
  | error cause => exact enters.bind_error
  | ok result =>
      have both : Enters (action >>= fun x => pure (f x)) (.ok (f result)) (entered ++ []) :=
        enters.bind_ok (enters_lift (.ok (f result)))
      rwa [List.append_nil] at both

-- An action that tells what it enters does the same with every table.
theorem Tells.enters {imports : α → List Import} {action : LowerM α} (tells : Tells imports action) :
    ∃ outcome entered, Enters action outcome entered := by
  obtain ⟨outcome, entered, enters, -⟩ := tells []
  exact ⟨outcome, entered, enters⟩

theorem piece_enters (frontEnd : FrontEnd) (piece : Piece) :
    ∃ outcome entered, Enters (piece.lower frontEnd) outcome entered := by
  cases piece with
  | expression tree => exact ⟨_, _, enters_lift _⟩
  | statement tree =>
      obtain ⟨outcome, entered, enters⟩ := (states_tell frontEnd tree).stmt.enters
      exact ⟨_, _, enters.map Node.stmt⟩
  | statements trees =>
      have tells : Tells Stmt.bodyImports (lowerStmts frontEnd trees) :=
        lowerStmts_tells fun tree _ => states_tell frontEnd tree
      obtain ⟨outcome, entered, enters⟩ := tells.enters
      exact ⟨_, _, enters.map Node.block⟩
  | root tree =>
      obtain ⟨outcome, entered, enters⟩ := (lowerRoot_tells frontEnd tree).enters
      exact ⟨_, _, enters.map Node.block⟩

/-- What a piece comes to in a session of its own. -/
def Piece.result (frontEnd : FrontEnd) (piece : Piece) : Lowered Node :=
  ((piece.lower frontEnd).run.run .empty).1

theorem Enters.result_eq {piece : Piece} {outcome : Lowered Node} {entered : Bindings}
    (enters : Enters (piece.lower frontEnd) outcome entered) : piece.result frontEnd = outcome := by
  rw [Piece.result, enters .empty]

theorem lowerStmts_append (xs ys : List Tree) :
    lowerStmts frontEnd (xs ++ ys) = (do
      let first ← lowerStmts frontEnd xs
      let second ← lowerStmts frontEnd ys
      pure (first ++ second)) := by
  simp only [lowerStmts_eq, List.filter_append, List.mapM_append]

def fault? (frontEnd : FrontEnd) (tree : Tree) : Option LowerError :=
  if tree.isToken then none
  else
    match (Piece.statement tree).result frontEnd with
    | .error cause => some cause
    | .ok _ => none

theorem lowerStmts_enters (frontEnd : FrontEnd) (trees : List Tree) :
    ∃ outcome entered, Enters (lowerStmts frontEnd trees) outcome entered ∧
      ∀ cause, outcome = .error cause ↔ trees.findSome? (fault? frontEnd) = some cause := by
  induction trees with
  | nil => exact ⟨.ok [], [], enters_lift (.ok []), by simp⟩
  | cons tree rest ih =>
      obtain ⟨outcome, entered, enters, faulty⟩ := ih
      rw [lowerStmts]
      split
      next token =>
        have passed : fault? frontEnd tree = none := by rw [fault?, if_pos token]
        refine ⟨outcome, entered, enters, ?_⟩
        simpa only [List.findSome?_cons, passed] using faulty
      next named =>
        obtain ⟨first, front, reads⟩ := (states_tell frontEnd tree).stmt.enters
        have alone : (Piece.statement tree).result frontEnd = first.map Node.stmt :=
          Enters.result_eq (reads.map Node.stmt)
        cases first with
        | error cause =>
            -- The run stops at the fault, which is the first one.
            have stopped : fault? frontEnd tree = some cause := by
              rw [fault?, if_neg named, alone]
              rfl
            refine ⟨.error cause, front, reads.bind_error, ?_⟩
            simp [stopped]
        | ok s =>
            -- What the statement enters stands in front of what the others do.
            have passed : fault? frontEnd tree = none := by
              rw [fault?, if_neg named, alone]
              rfl
            refine ⟨outcome.map (s :: ·), front ++ entered, ?_, ?_⟩
            · apply reads.bind_ok
              have others := enters.map (s :: ·)
              rwa [map_eq_pure_bind] at others
            · intro cause
              rw [List.findSome?_cons, passed, ← faulty cause]
              cases outcome <;> simp [Except.map]

theorem perform_eq {entries : Piece → Bindings}
    (enters : ∀ piece, Enters (piece.lower frontEnd) (piece.result frontEnd) (entries piece))
    (pieces : List Piece) (table : ImportTable) :
    (perform frontEnd pieces).run table =
      (pieces.mapIdx fun position piece =>
        (piece.result frontEnd, table.insertAll ((pieces.take (position + 1)).flatMap entries)),
       table.insertAll (pieces.flatMap entries)) := by
  induction pieces generalizing table with
  | nil => rfl
  | cons piece rest ih =>
      have step : (perform frontEnd (piece :: rest)).run table =
          let after := table.insertAll (entries piece)
          let others := (perform frontEnd rest).run after
          ((piece.result frontEnd, after) :: others.1, others.2) := by
        simp only [perform, StateT.run_bind]
        -- The run of the piece stands under a coercion that `rw` does not see through.
        erw [enters piece table]
        rfl
      simp only [step, ih]
      simp [List.mapIdx_cons]

/-- A result does not depend on the table nor on what has been lowered before, and neither do the
names that are entered. So statements can be lowered in two parts; a list of statements has the
fault of its first statement that has one; and in a session, each result is that of the piece on its
own, whether or not earlier pieces have failed. -/
theorem lowering_forgets_history (frontEnd : FrontEnd) :
    ∃ entries : Piece → Bindings,
      (∀ (piece : Piece) table, (piece.lower frontEnd).run.run table =
        (piece.result frontEnd, table.insertAll (entries piece))) ∧
      (∀ xs ys, lowerStmts frontEnd (xs ++ ys) = do
        let first ← lowerStmts frontEnd xs
        let second ← lowerStmts frontEnd ys
        pure (first ++ second)) ∧
      (∀ trees table cause, ((lowerStmts frontEnd trees).run.run table).1 = .error cause ↔
        trees.findSome? (fault? frontEnd) = some cause) ∧
      (∀ (pieces : List Piece) table, (perform frontEnd pieces).run table =
        (pieces.mapIdx fun position piece =>
          (piece.result frontEnd, table.insertAll ((pieces.take (position + 1)).flatMap entries)),
         table.insertAll (pieces.flatMap entries))) := by
  have enters (piece : Piece) :
      ∃ entered, Enters (piece.lower frontEnd) (piece.result frontEnd) entered := by
    obtain ⟨outcome, entered, enters⟩ := piece_enters frontEnd piece
    exact ⟨entered, enters.result_eq ▸ enters⟩
  have each (piece : Piece) := (enters piece).choose_spec
  refine ⟨fun piece => (enters piece).choose, each, lowerStmts_append, ?_, perform_eq each⟩
  intro trees table cause
  obtain ⟨outcome, entered, enters, faulty⟩ := lowerStmts_enters frontEnd trees
  rw [enters table]
  exact faulty cause

end NumericPython.Lowering
