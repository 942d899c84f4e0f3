import NumericPython.Pipeline
import NumericPython.Proofs.Lowering.CanonicalStmt
import NumericPython.Proofs.Printing.Printable

set_option autoImplicit false

namespace NumericPython

namespace Expr

theorem Canonical.index_printable {isIndex : Bool} {e : Expr} (canonical : e.Canonical isIndex) :
    if isIndex then e.PrintableSlice ∨ e.Printable else e.Printable := by
  have weaken {isIndex : Bool} {e : Expr} (printable : e.Printable) :
      if isIndex then e.PrintableSlice ∨ e.Printable else e.Printable := by
    cases isIndex
    · exact printable
    · exact .inr printable
  induction canonical with
  | float finite | complex finite => exact weaken finite
  | tuple each ih => exact weaken ((allPrintable_iff _).2 ih)
  | call plain general each ih => exact weaken ((allPrintable_iff _).2 ih)
  | binary first second ihFirst ihSecond => exact weaken ⟨ihFirst, ihSecond⟩
  | unary inner ih => exact weaken ih
  | range first second third ihFirst ihSecond ihThird =>
      exact weaken ⟨ihFirst, ihSecond, ihThird⟩
  | indexed value each ihValue ih =>
      obtain ⟨index, more⟩ := List.forall_mem_cons.1 ih
      exact weaken ⟨ihValue, index, (indicesPrintable_iff _).2 more⟩
  | slice first second third ihFirst ihSecond ihThird =>
      have part {e? : Option Expr} (printable : ∀ e ∈ e?, e.Printable) : PartPrintable e? := by
        cases e? with
        | none => trivial
        | some e => exact printable e rfl
      exact .inl ⟨part ihFirst, part ihSecond, part ihThird⟩
  | _ => exact weaken trivial

theorem Canonical.printable {e : Expr} (canonical : e.Canonical false) : e.Printable :=
  canonical.index_printable

end Expr

namespace Stmt

theorem definition_printable {definition : FunctionDef} (header : definition.CanonicalHeader)
    (body : ∀ s ∈ definition.body, s.Printable) : DefinitionPrintable definition := by
  refine (definitionPrintable_iff definition).2 ⟨fun parameter member => ?_, ?_,
    (bodyPrintable_iff _).2 body⟩
  · have canonical := header.parameters parameter member
    cases parameter with
    | plain _ => trivial
    | valued _ default => exact canonical.printable
  · exact fun entry among e member => (header.decorators entry among e member).printable

theorem branch_printable {branch : Branch} (condition : branch.condition.Canonical false)
    (body : ∀ s ∈ branch.body, s.Printable) : BranchPrintable branch := by
  cases branch
  exact ⟨condition.printable, (bodyPrintable_iff _).2 body⟩

theorem Canonical.printable {s : Stmt} (canonical : s.Canonical) : s.Printable := by
  induction canonical with
  | assign left right | augAssign left _ right => exact ⟨left.printable, right.printable⟩
  | returnValue inner | expression inner => exact inner.printable
  | print each => exact fun e member => (each e member).printable
  | conditional conditions bodies last ihBodies ihLast =>
      have branches := fun b member => branch_printable (conditions b member) (ihBodies b member)
      obtain ⟨first, rest⟩ := List.forall_mem_cons.1 branches
      refine ⟨first, (branchesPrintable_iff _).2 rest, ?_⟩
      cases ‹Option (List Stmt)› with
      | none => trivial
      | some body => exact (bodyPrintable_iff body).2 (ihLast body rfl)
  | always each ih => exact (bodyPrintable_iff _).2 ih
  | forLoop left right each ih => exact ⟨right.printable, (bodyPrintable_iff _).2 ih⟩
  | whileLoop holds each ih => exact ⟨holds.printable, (bodyPrintable_iff _).2 ih⟩
  | functionDef plain header each ih => exact definition_printable header ih
  | classDef declared plain header each ih =>
      exact (methodsPrintable_iff _).2 fun m member =>
        definition_printable (header m member) (ih m member)
  | _ => trivial

end Stmt

theorem lowered_body_printable {frontEnd : FrontEnd} {tree : Tree} {lowered : LoweredModule}
    (lowers : LoweredModule.ofTree frontEnd tree = .ok lowered) :
    ∀ s ∈ lowered.body, s.Printable :=
  fun s member => (lowered_body_canonical lowers s member).printable

theorem lowerParsed_lowers {path text : String} {parsed : Parsed} {lowered : LoweredModule}
    (lowers : Processed.lowerParsed path text parsed = .ok lowered) :
    ∃ tree, LoweredModule.ofTree Directive.frontEnd tree = .ok lowered := by
  unfold Processed.lowerParsed at lowers
  split at lowers
  · next tree _ _ =>
    rcases outcome : LoweredModule.ofTree Directive.frontEnd tree with cause | result
    · rw [outcome] at lowers
      cases lowers
    · rw [outcome] at lowers
      cases lowers
      exact ⟨tree, outcome⟩
  · cases lowers

theorem lowerParsed_ne_print {path text : String} {parsed : Parsed} {cause : PrintError} :
    Processed.lowerParsed path text parsed ≠ .error (.print cause) := by
  intro failed
  unfold Processed.lowerParsed at failed
  split at failed
  · next tree _ _ =>
    rcases outcome : LoweredModule.ofTree Directive.frontEnd tree with refusal | result
    · rw [outcome] at failed
      cases failed
    · rw [outcome] at failed
      cases failed
  · cases failed

theorem processed_ne_print (grammar : Grammar) (settings : Settings) (path text : String)
    (cause : PrintError) : Processed.ofText grammar settings path text ≠ .error (.print cause) := by
  intro failed
  unfold Processed.ofText Processed.ofParsed at failed
  rcases lowering : Processed.lowerParsed path text (Parsed.ofText grammar text)
    with refusal | lowered
  · rw [lowering] at failed
    cases failed
    exact lowerParsed_ne_print lowering
  · obtain ⟨tree, lowers⟩ := lowerParsed_lowers lowering
    obtain ⟨output, written⟩ :=
      Printing.block_print_of_printable settings (lowered_body_printable lowers)
    rw [lowering] at failed
    simp only [bind, Except.bind, written, Except.mapError] at failed
    cases failed

/-- What can be lowered has a text, for every front end and all settings; so the pipeline never
stops at the printer. -/
theorem lowered_module_prints :
    (∀ (frontEnd : FrontEnd) (settings : Settings) (tree : Tree) (lowered : LoweredModule),
      LoweredModule.ofTree frontEnd tree = .ok lowered →
        ∃ text, (Node.block lowered.body).print settings = .ok text) ∧
      ∀ (grammar : Grammar) (settings : Settings) (path text : String) (cause : PrintError),
        Processed.ofText grammar settings path text ≠ .error (.print cause) :=
  ⟨fun _ settings _ _ lowers =>
      Printing.block_print_of_printable settings (lowered_body_printable lowers),
    processed_ne_print⟩

/-- The tree of `x[:]`. -/
def wholeSliceTree : Tree :=
  let node (kind : Kind) (text : String) (field : Option String) (children : List Tree) : Tree :=
    ⟨kind, .ofRange 0 4, text, field, children⟩
  node .root "x[:]" none
    [node .expressionStatement "x[:]" none
      [node .subscript "x[:]" none
        [node .identifier "x" (some "value") [], node .token "[" none [],
         node .slice ":" (some "subscript") [node .token ":" none []], node .token "]" none []]]]

theorem whole_slice_prints :
    ∃ lowered, LoweredModule.ofTree Directive.frontEnd wholeSliceTree = .ok lowered ∧
      ∃ text, (Node.block lowered.body).print {} = .ok text :=
  ⟨_, rfl, lowered_module_prints.1 Directive.frontEnd {} wholeSliceTree _ rfl⟩

end NumericPython
