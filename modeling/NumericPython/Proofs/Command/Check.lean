import NumericPython.Command.Run
import NumericPython.Proofs.Problem.Reports
import NumericPython.Proofs.Problem.ShortForm

set_option autoImplicit false

namespace NumericPython

namespace Command

variable {grammar : Grammar} {draw shown : String → UnitError → String} {settings : Settings}

def outcome (grammar : Grammar) (settings : Settings) (files : Files) (path : String) :
    Except UnitError Processed :=
  match files.read path with
  | .error fault => .error (.unreadable path fault)
  | .ok text => Processed.ofText grammar settings path text

theorem processFile_run (path : String) (machine : Machine) :
    (processFile (Host.ofFiles grammar draw) settings path).run machine =
      (outcome grammar settings machine.files path, machine) := by
  have read : ((Host.ofFiles grammar draw).readText path).run machine =
      (machine.files.read path, machine) := rfl
  rw [processFile, StateT.run_bind, read, outcome]
  cases machine.files.read path <;> rfl

theorem processFiles_run (paths : List String) (machine : Machine) :
    (processFiles (Host.ofFiles grammar draw) settings paths).run machine =
      (paths.map fun path => (path, outcome grammar settings machine.files path), machine) := by
  induction paths with
  | nil => rfl
  | cons path rest ih =>
      have step : (processFiles (Host.ofFiles grammar draw) settings (path :: rest)).run machine =
          let first := (processFile (Host.ofFiles grammar draw) settings path).run machine
          let others := (processFiles (Host.ofFiles grammar draw) settings rest).run first.2
          ((path, first.1) :: others.1, others.2) := by
        rw [processFiles, List.mapM_cons]
        rfl
      rw [step, processFile_run]
      simp only [ih, List.map_cons]

/-- What is written to the error stream about a source file. -/
def complaint (shown : String → UnitError → String) : String × Except UnitError Processed → String
  | (_, .ok _) => ""
  | (path, .error error) => "  ✗ " ++ path ++ "\n" ++ shown path error

theorem reportAll_run (format : MessageFormat) (results : Results) (machine : Machine) :
    ∃ out, (reportAll (Host.ofFiles grammar draw) format results).run machine =
      (results.countP (!·.2.isOk), { machine with
        out, err := machine.err ++ String.join (results.map (complaint (format.report draw))) }) := by
  induction results generalizing machine with
  | nil => exact ⟨machine.out, by rw [List.map_nil, String.join_nil, String.append_empty]; rfl⟩
  | cons result rest ih =>
      obtain ⟨path, processed⟩ := result
      cases processed with
      | ok processed =>
          obtain ⟨out, others⟩ := ih { machine with
            out := machine.out ++ ("  ✓ " ++ path ++ " (" ++
              toString processed.lowered.body.length ++ " statements)\n") }
          refine ⟨out, Eq.trans others ?_⟩
          simp [complaint, Except.isOk, Except.toBool]
      | error error =>
          obtain ⟨out, others⟩ := ih { machine with
            err := machine.err ++ ("  ✗ " ++ path ++ "\n") ++ format.report draw path error }
          have step : (reportAll (Host.ofFiles grammar draw) format
              ((path, .error error) :: rest)).run machine =
              let after := (reportAll (Host.ofFiles grammar draw) format rest).run { machine with
                err := machine.err ++ ("  ✗ " ++ path ++ "\n") ++ format.report draw path error }
              (after.1 + 1, after.2) := rfl
          refine ⟨out, ?_⟩
          rw [step, others]
          simp [complaint, Except.isOk, Except.toBool, String.append_assoc]

def conclude (host : Host (StateM Machine)) (failures : Nat) : ExceptT Failure (StateM Machine) Unit := do
  if 0 < failures then
    host.writeErr ("Failed: " ++ toString failures ++ " file(s) failed\n")
    throw ⟨"Check failed with " ++ toString failures ++ " errors", none⟩
  host.writeOut "Success: No errors found\n"

theorem conclude_err (failures : Nat) (machine : Machine) :
    ((conclude (Host.ofFiles grammar draw) failures).run.run machine).2.err = machine.err ++
      if 0 < failures then "Failed: " ++ toString failures ++ " file(s) failed\n" else "" := by
  rw [conclude]
  split
  · rfl
  · exact (String.append_empty).symm

def complaints (shown : String → UnitError → String) (grammar : Grammar) (files : Files)
    (paths : List String) : String :=
  String.join (paths.map fun path => complaint shown (path, outcome grammar {} files path))

def failures (grammar : Grammar) (files : Files) (paths : List String) : Nat :=
  paths.countP fun path => !(outcome grammar {} files path).isOk

theorem check_run (paths : List String) (format : MessageFormat) (machine : Machine) :
    (((Command.check paths format).run (Host.ofFiles grammar draw)).run.run machine).2.err =
      machine.err ++ complaints (format.report draw) grammar machine.files paths ++
        if 0 < failures grammar machine.files paths then
          "Failed: " ++ toString (failures grammar machine.files paths) ++ " file(s) failed\n"
        else "" := by
  let started : Machine :=
    { machine with out := machine.out ++ ("Checking " ++ toString paths.length ++ " file(s)\n") }
  let outcomes : Results := paths.map fun path => (path, outcome grammar {} machine.files path)
  have read : (processFiles (Host.ofFiles grammar draw) {} paths).run started = (outcomes, started) :=
    processFiles_run paths started
  obtain ⟨out, reported⟩ := @reportAll_run grammar draw format outcomes started
  have steps : ((Command.check paths format).run (Host.ofFiles grammar draw)).run.run machine =
      let results := (processFiles (Host.ofFiles grammar draw) {} paths).run started
      let counted := (reportAll (Host.ofFiles grammar draw) format results.1).run results.2
      (conclude (Host.ofFiles grammar draw) counted.1).run.run
        { counted.2 with out := counted.2.out ++ "\n" } := rfl
  rw [steps, read]
  simp only [reported, conclude_err, outcomes, List.map_map, List.countP_map]
  rfl

theorem complaints_append (files : Files) (first second : List String) :
    complaints shown grammar files (first ++ second) =
      complaints shown grammar files first ++ complaints shown grammar files second := by
  simp [complaints]

theorem complaints_cons (files : Files) (path : String) (rest : List String) :
    complaints shown grammar files (path :: rest) =
      complaint shown (path, outcome grammar {} files path) ++
        complaints shown grammar files rest := by
  simp [complaints]

section Flagged

variable {files : Files} {path text : String} {raw : RawTree}

-- A file with flagged nodes has no output.
theorem outcome_flagged (read : files.read path = .ok text) (parsed : grammar text = .ok raw)
    (flagged : raw.flagged ≠ []) :
    outcome grammar settings files path =
      .error (.problems path text (Parsed.ofRaw text raw).problems) := by
  have stopped : Processed.lowerParsed path text (.ofRaw text raw) =
      .error (.problems path text (Parsed.ofRaw text raw).problems) :=
    Processed.lowerParsed_problems_iff.2 ⟨flagged, rfl, rfl, rfl⟩
  simp only [outcome, read, Processed.ofText, Parsed.ofText, parsed, Processed.ofParsed, stopped]
  rfl

-- What a check writes about a file is a heading and the short form of each report.
theorem complaint_flagged (read : files.read path = .ok text) (parsed : grammar text = .ok raw)
    (flagged : raw.flagged ≠ []) :
    complaint UnitError.short (path, outcome grammar settings files path) = "  ✗ " ++ path ++ "\n" ++
      String.join ((Parsed.ofRaw text raw).problems.map (Problem.short path text.toList)) := by
  rw [outcome_flagged read parsed flagged]
  rfl

theorem failures_pos (read : files.read path = .ok text) (parsed : grammar text = .ok raw)
    (flagged : raw.flagged ≠ []) {paths : List String} (member : path ∈ paths) :
    0 < failures grammar files paths := by
  rw [failures, List.countP_pos_iff]
  exact ⟨path, member, by rw [outcome_flagged read parsed flagged]; rfl⟩

end Flagged

end Command

open Text

theorem short_reports_are_lines {path text : String} {raw : RawTree}
    (kinds : ∀ node, raw.Within node → OneLine node.kind) (name : OneLine path) :
    ∀ problem ∈ (Parsed.ofRaw text raw).problems, IsLine (problem.short path text.toList) := by
  intro problem member
  obtain ⟨parent, node, within, reported⟩ := Problem.exists_of_mem_ofTree member
  exact Problem.isLine_short name (Problem.oneLine_ofNode? reported (kinds node within)) _

/-- Each flagged node has one report, in source order. The text is accepted, by itself and by the
front end, and lowered, if no node is flagged; otherwise the reports, or their number and the first
of them, are the answer. A check writes a line for each report. -/
theorem flagged_nodes_reported_one_for_one (path text : String) (raw : RawTree) :
    let parsed := Parsed.ofRaw text raw
    List.Forall₂ (fun place problem =>
        Problem.ofNode? (.ofString text) place.1 place.2 = some problem ∧
          problem.offset = place.2.start) raw.flagged parsed.problems ∧
      (parsed.isOk = true ↔ ∀ node, raw.Within node → node.isFlagged = false) ∧
      (parsed.accepted =
        match parsed.problems with
        | [] => .ok (raw.toTree (.ofString text))
        | first :: _ => .error (.problems first.message raw.flagged.length)) ∧
      (∀ path' text' found,
        Processed.lowerParsed path text parsed = .error (.problems path' text' found) ↔
          raw.flagged ≠ [] ∧ path' = path ∧ text' = text ∧ found = parsed.problems) ∧
      ((∀ node, raw.Within node → OneLine node.kind) → OneLine path →
        ∀ problem ∈ parsed.problems, IsLine (problem.short path text.toList)) ∧
      ∀ (grammar : Grammar) (draw : String → UnitError → String) (machine : Machine)
        (before after : List String),
        grammar text = .ok raw → machine.files.read path = .ok text → raw.flagged ≠ [] →
          let paths := before ++ path :: after
          let complaints := Command.complaints UnitError.short grammar machine.files
          let lines := parsed.problems.map (Problem.short path text.toList)
          lines.length = raw.flagged.length ∧
            (((Command.check paths .short).run (Host.ofFiles grammar draw)).run.run machine).2.err =
              machine.err ++ complaints before ++
                ("  ✗ " ++ path ++ "\n" ++ String.join lines) ++ complaints after ++
                "Failed: " ++ toString (Command.failures grammar machine.files paths) ++
                " file(s) failed\n" := by
  intro parsed
  have reports := Problem.ofTree_reports (.ofString text) raw
  refine ⟨reports.imp fun place problem reported =>
    ⟨reported, Problem.offset_of_ofNode? reported⟩,
    Parsed.isOk_ofRaw.trans RawTree.flagged_eq_nil_iff,
    Parsed.accepted_ofRaw text raw, fun _ _ _ => Processed.lowerParsed_problems_iff,
    short_reports_are_lines, ?_⟩
  intro grammar draw machine before after found read flagged paths complaints lines
  have count : lines.length = raw.flagged.length := by
    rw [List.length_map]
    exact Problem.length_ofTree (.ofString text) raw
  have failed : 0 < Command.failures grammar machine.files paths :=
    Command.failures_pos read found flagged (List.mem_append_right _ List.mem_cons_self)
  refine ⟨count, ?_⟩
  have shown : MessageFormat.short.report draw = UnitError.short := rfl
  rw [Command.check_run, shown, if_pos failed, Command.complaints_append, Command.complaints_cons,
    Command.complaint_flagged read found flagged]
  simp only [complaints, lines, String.append_assoc]
  rfl

def brokenCall : RawTree :=
  let node (kind : String) (start stop : Nat) (isNamed isError isMissing : Bool)
      (children : List RawTree) : RawTree :=
    ⟨kind, none, start, stop, isNamed, isError, isMissing, children⟩
  node "module" 0 7 true false false
    [node "ERROR" 0 6 true true false
      [node "identifier" 0 1 true false false [],
       node "argument_list" 1 6 true false false
        [node "(" 1 2 false false false [],
         node "ERROR" 4 6 true true false
          [node "[" 4 5 false false false [], node "identifier" 5 6 true false false []],
         node ")" 6 6 false false true []]]]

theorem broken_call_reported :
    let text := "f(a\n[b\n"
    let machine : Machine := ⟨⟨[(["a.py"], .file (some text))]⟩, "", ""⟩
    (∀ node, brokenCall.Within node → OneLine node.kind) ∧ OneLine "a.py" ∧
      machine.files.read "a.py" = .ok text ∧ brokenCall.flagged ≠ [] ∧
      ∃ lines : List String, lines.length = 3 ∧ (∀ line ∈ lines, IsLine line) ∧
        (((Command.check ["a.py"] .short).run
          (Host.ofFiles fun _ => .ok brokenCall)).run.run machine).2.err =
          "  ✗ a.py\n" ++ String.join lines ++ "Failed: 1 file(s) failed\n" := by
  intro text machine
  have kinds : ∀ node, brokenCall.Within node → OneLine node.kind := by decide
  have read : machine.files.read "a.py" = .ok text := by decide
  have flagged : brokenCall.flagged ≠ [] := by decide
  refine ⟨kinds, by decide, read, flagged, ?_⟩
  obtain ⟨_, _, _, _, lines, check⟩ :=
    flagged_nodes_reported_one_for_one "a.py" text brokenCall
  have each := lines kinds (by decide)
  obtain ⟨count, written⟩ := check (fun _ => .ok brokenCall) UnitError.short machine [] [] rfl read flagged
  have failed : Command.failures (fun _ => .ok brokenCall) machine.files ["a.py"] = 1 := by
    rw [Command.failures, List.countP_singleton, Command.outcome_flagged read rfl flagged]
    rfl
  refine ⟨_, count, by simpa using each, written.trans ?_⟩
  have total : "Failed: " ++ toString 1 ++ " file(s) failed\n" = "Failed: 1 file(s) failed\n" := by
    decide
  rw [List.nil_append, failed, ← total]
  simp [Command.complaints, machine, String.append_assoc]

end NumericPython
