import Mathlib.Data.List.Nodup
import NumericPython.Proofs.Command.Check
import NumericPython.Proofs.Files.Writing

set_option autoImplicit false

namespace NumericPython.Command

section Names

variable {directory first second : String} {emit : Emit}

def outputStem (input : String) : String :=
  (Path.fileStem? input).getD "out"

def outputName (emit : Emit) (input : String) : String :=
  outputStem input ++ "." ++ emit.extension

theorem outputPath_eq (directory input : String) (emit : Emit) :
    outputPath directory input emit = Path.join directory (outputName emit input) := rfl

theorem outputName_inj :
    outputName emit first = outputName emit second ↔ outputStem first = outputStem second := by
  simp [outputName]

theorem outputPath_inj :
    outputPath directory first emit = outputPath directory second emit ↔
      outputStem first = outputStem second := by
  rw [outputPath_eq, outputPath_eq, ← @outputName_inj first second emit]
  exact ⟨Path.join_injective, congrArg _⟩

example : outputPath "out" "a/x.py" .python = outputPath "out" "x.pyh" .python := by decide

theorem no_slash_outputStem (input : String) : '/' ∉ (outputStem input).toList := by
  unfold outputStem
  cases found : Path.fileStem? input with
  | none => decide
  | some stem => exact Path.no_slash_of_fileStem? found

theorem isFileName_outputName (emit : Emit) (input : String) :
    Path.IsFileName (outputName emit input) := by
  have long : 3 ≤ (outputName emit input).length := by
    have extension : 2 ≤ emit.extension.length := by cases emit <;> decide
    have dot : ".".length = 1 := by decide
    rw [outputName, String.length_append, String.length_append]
    omega
  have plain : '/' ∉ emit.extension.toList := by cases emit <;> decide
  refine ⟨?_, ?_, ?_, ?_⟩
  · simp [outputName, no_slash_outputStem input, plain]
  -- The names that no file can have are shorter than a dot and an extension.
  all_goals
    intro same
    rw [same] at long
    exact absurd long (by decide)

end Names

section Run

variable {grammar : Grammar} {draw : String → UnitError → String} {settings : Settings}
  {emit : Emit} {directory : String}
  {machine after : Machine} {files : Files}

theorem bind_run {α β : Type} {action : ExceptT Failure (StateM Machine) α}
    {next : α → ExceptT Failure (StateM Machine) β} {value : α}
    (first : action.run.run machine = (.ok value, after)) :
    (action >>= next).run.run machine = (next value).run.run after := by
  rw [ExceptT.run_bind, StateT.run_bind, first]
  rfl

theorem lift_run {α : Type} {action : StateM Machine α} {value : α}
    (ran : action.run machine = (value, after)) :
    (liftM action : ExceptT Failure (StateM Machine) α).run.run machine = (.ok value, after) := by
  have lifted : (liftM action : ExceptT Failure (StateM Machine) α).run.run machine =
      (.ok (action.run machine).1, (action.run machine).2) := rfl
  rw [lifted, ran]

theorem change_run (f : Files → Except FileFault Files) (changed : f machine.files = .ok files) :
    (Host.change f).run machine = (.ok (), { machine with files }) := by
  simp only [Host.change, StateT.run_bind, StateT.run_get, pure_bind, changed]
  rfl

-- What reads files only leaves the machine as it is.
theorem bind_keeps {α β : Type} {action : StateM Machine α} {next : α → StateM Machine β}
    (first : (action.run machine).2 = machine)
    (others : ∀ value, ((next value).run machine).2 = machine) :
    ((action >>= next).run machine).2 = machine := by
  have steps : (action >>= next).run machine =
      (next (action.run machine).1).run (action.run machine).2 := rfl
  rw [steps, first]
  exact others _

theorem load_keeps (path : String) :
    ((Settings.load (Host.ofFiles grammar draw) path).run machine).2 = machine := by
  refine bind_keeps rfl fun read => ?_
  split
  · rfl
  · split <;> rfl

theorem find_keeps (directory : String) :
    ((Settings.find (Host.ofFiles grammar draw) directory).run machine).2 = machine := by
  refine bind_keeps rfl fun found => ?_
  split
  · exact load_keeps _
  · rfl

def chosenSettings {m : Type → Type} [Monad m] (host : Host m) (config : Option String)
    (paths : List String) : m (Except Failure Settings) :=
  match config with
  | some path => Settings.load host path
  | none => Settings.find host (directoryOf paths)

theorem chosenSettings_keeps (config : Option String) (paths : List String) :
    ((chosenSettings (Host.ofFiles grammar draw) config paths).run machine).2 = machine := by
  cases config with
  | none => exact find_keeps (directoryOf paths)
  | some path => exact load_keeps path

def outputs (emit : Emit) (results : Results) : List (String × String) :=
  results.filterMap fun (path, result) =>
    result.toOption.map fun processed => (outputName emit path, render emit processed)

theorem deliver_run {path : String} {processed : Processed}
    (written : machine.files.write (outputPath directory path emit) (render emit processed) =
      .ok files) :
    (deliver (Host.ofFiles grammar draw) emit (some directory) path processed).run.run machine =
      (.ok (), { machine with
        files, err := machine.err ++ ("Wrote " ++ outputPath directory path emit ++ "\n") }) := by
  have wrote : (liftM ((Host.ofFiles grammar draw).writeText (outputPath directory path emit)
        (render emit processed)) : ExceptT Failure (StateM Machine) _).run.run machine =
      (.ok (.ok ()), { machine with files }) :=
    lift_run (change_run (·.write (outputPath directory path emit) (render emit processed)) written)
  rw [deliver, bind_run wrote]
  rfl

-- Results with an output write it, the others are counted.
theorem deliverAll_run {results : Results}
    (written : machine.files.writeAll directory (outputs emit results) = .ok files) :
    ∃ err, (deliverAll (Host.ofFiles grammar draw) emit (some directory) results).run.run machine =
      (.ok (results.countP (!·.2.isOk)), { machine with files, err }) := by
  induction results generalizing machine with
  | nil =>
      cases written
      exact ⟨machine.err, rfl⟩
  | cons result rest ih =>
      obtain ⟨path, result⟩ := result
      cases result with
      | ok processed =>
          have spelled : outputs emit ((path, .ok processed) :: rest) =
              (outputName emit path, render emit processed) :: outputs emit rest := rfl
          rw [spelled, Files.writeAll] at written
          split at written
          · cases written
          rename_i next first
          have delivered := @deliver_run grammar draw emit directory machine next path processed first
          obtain ⟨err, others⟩ := @ih { machine with
            files := next
            err := machine.err ++ ("Wrote " ++ outputPath directory path emit ++ "\n") } written
          refine ⟨err, ?_⟩
          rw [deliverAll, bind_run delivered, others]
          simp [Except.isOk, Except.toBool]
      | error error =>
          obtain ⟨err, others⟩ := @ih { machine with err := machine.err ++ draw path error } written
          let host := Host.ofFiles grammar draw
          have complained : (liftM (host.writeErr (host.draw path error)) :
              ExceptT Failure (StateM Machine) Unit).run.run machine =
                (.ok (), { machine with err := machine.err ++ draw path error }) := rfl
          refine ⟨err, ?_⟩
          rw [deliverAll, bind_run complained, bind_run others]
          simp [Except.isOk, Except.toBool]
          rfl

def verdict (failures : Nat) : Except Failure Unit :=
  if 0 < failures then .error ⟨toString failures ++ " file(s) could not be translated", none⟩
  else .ok ()

def outcomes (grammar : Grammar) (settings : Settings) (files : Files) (paths : List String) :
    Results :=
  paths.map fun path => (path, outcome grammar settings files path)

theorem translate_run {config : Option String} {paths : List String} {made : Files}
    (configured : ((chosenSettings (Host.ofFiles grammar draw) config paths).run machine).1 = .ok settings)
    (created : machine.files.createDirectories directory = .ok made)
    (written : made.writeAll directory (outputs emit (outcomes grammar settings made paths)) =
      .ok files) :
    ∃ err, ((Command.translate paths emit config (some directory)).run
        (Host.ofFiles grammar draw)).run.run machine =
      (verdict (paths.countP fun path => !(outcome grammar settings made path).isOk),
        { machine with files, err }) := by
  let opened : Machine := { machine with files := made }
  have chosen : (ExceptT.mk (chosenSettings (Host.ofFiles grammar draw) config paths) :
      ExceptT Failure (StateM Machine) Settings).run.run machine = (.ok settings, machine) :=
    Prod.ext configured (chosenSettings_keeps config paths)
  have opens : (liftM ((Host.ofFiles grammar draw).createDirectories directory) :
      ExceptT Failure (StateM Machine) _).run.run machine = (.ok (.ok ()), opened) :=
    lift_run (change_run (·.createDirectories directory) created)
  have processed : (liftM (processFiles (Host.ofFiles grammar draw) settings paths) :
      ExceptT Failure (StateM Machine) Results).run.run opened =
        (.ok (outcomes grammar settings made paths), opened) :=
    lift_run (processFiles_run paths opened)
  obtain ⟨err, delivered⟩ := @deliverAll_run grammar draw emit directory opened files _ written
  refine ⟨err, ?_⟩
  -- The steps in their order: settings, directory, source files, outputs.
  unfold Command.run runTranslate
  refine (bind_run chosen).trans ?_
  refine (bind_run opens).trans ?_
  refine (bind_run processed).trans ?_
  refine (bind_run delivered).trans ?_
  rw [outcomes, List.countP_map]
  simp only [verdict, Function.comp_def]
  split <;> rfl

end Run

section Kept

variable {grammar : Grammar} {draw : String → UnitError → String} {settings : Settings}
  {emit : Emit} {directory : String}
  {machine : Machine} {made files : Files} {paths : List String}

def output? (grammar : Grammar) (settings : Settings) (files : Files) (emit : Emit)
    (path : String) : Option String :=
  (outcome grammar settings files path).toOption.map (render emit)

theorem outputs_eq :
    outputs emit (outcomes grammar settings files paths) =
      paths.filterMap fun path =>
        (output? grammar settings files emit path).map (outputName emit path, ·) := by
  simp [outputs, outcomes, output?, List.filterMap_map, Function.comp_def]

theorem mem_outputs {name text : String} :
    (name, text) ∈ outputs emit (outcomes grammar settings files paths) ↔
      ∃ path ∈ paths,
        outputName emit path = name ∧ output? grammar settings files emit path = some text := by
  rw [outputs_eq, List.mem_filterMap]
  refine exists_congr fun path => and_congr_right fun _ => ?_
  cases output? grammar settings files emit path <;> simp

theorem isFileName_of_mem_outputs {results : Results} :
    ∀ output ∈ outputs emit results, Path.IsFileName output.1 := by
  intro output member
  obtain ⟨⟨path, result⟩, _, found⟩ := List.mem_filterMap.1 member
  obtain ⟨processed, _, rfl⟩ := Option.map_eq_some_iff.1 found
  exact isFileName_outputName emit path

section Directory

variable {after : Files}
  (holds : made.HoldsLast after directory (outputs emit (outcomes grammar settings made paths)))

include holds

-- The file of an output has the text of the last output that goes there.
theorem exists_last_source {path text : String} (member : path ∈ paths)
    (given : output? grammar settings made emit path = some text) :
    ∃ last ∈ paths, outputStem path = outputStem last ∧
      ∃ text', output? grammar settings made emit last = some text' ∧
        after.read (outputPath directory path emit) = .ok text' := by
  obtain ⟨text', found, lastMember⟩ :=
    Table.get?_ofList_of_mem (mem_outputs.2 ⟨path, member, rfl, given⟩)
  obtain ⟨last, among, named, lastGiven⟩ := mem_outputs.1 lastMember
  refine ⟨last, among, (outputName_inj.1 named).symm, text', lastGiven, ?_⟩
  rw [outputPath_eq, holds _ (isFileName_outputName emit path).plain, found]
  rfl

theorem own_outputs_iff :
    (∀ path ∈ paths, ∀ text, output? grammar settings made emit path = some text →
        after.read (outputPath directory path emit) = .ok text) ↔
      ∀ first ∈ paths, ∀ second ∈ paths, outputStem first = outputStem second →
        ∀ text text', output? grammar settings made emit first = some text →
          output? grammar settings made emit second = some text' → text = text' := by
  constructor
  · intro own first firstMember second secondMember same text text' given given'
    have read := own first firstMember text given
    have read' := own second secondMember text' given'
    rw [outputPath_inj.2 same, read'] at read
    exact (Except.ok.inj read).symm
  · intro equal path member text given
    obtain ⟨last, among, same, text', given', read⟩ := exists_last_source holds member given
    rw [read, equal path member last among same text text' given given']

end Directory

theorem nodup_outputPaths_iff :
    (paths.map (outputPath directory · emit)).Nodup ↔ (paths.map outputStem).Nodup := by
  have apart : Function.Injective fun stem => Path.join directory (stem ++ "." ++ emit.extension) :=
    fun first second same => by simpa using Path.join_injective same
  have mapped : paths.map (outputPath directory · emit) =
      (paths.map outputStem).map fun stem => Path.join directory (stem ++ "." ++ emit.extension) := by
    rw [List.map_map]
    rfl
  rw [mapped, List.nodup_map_iff apart]

/-- Where all files can be written, a translation leaves in its output directory under each name the
last output of that name, and what was there before under the other names. Each translated source
file finds its own output at its output path exactly if translated source files with one stem have
equal outputs. The outputs of all translated source files are in the directory and no two source
files have one output path exactly if no two source files have one stem. In any case the translation
fails only because of source files that are not translated. -/
theorem outputs_kept_iff_stems_distinct {config : Option String}
    (configured : ((chosenSettings (Host.ofFiles grammar draw) config paths).run machine).1 = .ok settings)
    (created : machine.files.createDirectories directory = .ok made)
    (writable : ∀ path ∈ paths, ∀ text, output? grammar settings made emit path = some text →
      ∃ files, made.write (outputPath directory path emit) text = .ok files) :
    let ended := ((Command.translate paths emit config (some directory)).run
      (Host.ofFiles grammar draw)).run.run machine
    let output := output? grammar settings made emit
    ended.1 = verdict (paths.countP fun path => !(outcome grammar settings made path).isOk) ∧
      made.HoldsLast ended.2.files directory (outputs emit (outcomes grammar settings made paths)) ∧
      ((∀ path ∈ paths, ∀ text, output path = some text →
          ended.2.files.read (outputPath directory path emit) = .ok text) ↔
        ∀ first ∈ paths, ∀ second ∈ paths, outputStem first = outputStem second →
          ∀ text text', output first = some text → output second = some text' → text = text') ∧
      ((∀ path ∈ paths, ∀ text, output path = some text →
          ∃ name, '/' ∉ name.toList ∧
            ended.2.files.read (Path.join directory name) = .ok text) ∧
        (paths.map (outputPath directory · emit)).Nodup ↔ (paths.map outputStem).Nodup) := by
  intro ended output
  have writes : ∀ written ∈ outputs emit (outcomes grammar settings made paths), ∃ after,
      made.write (Path.join directory written.1) written.2 = .ok after := by
    intro ⟨name, text⟩ member
    obtain ⟨path, pathMember, rfl, given⟩ := mem_outputs.1 member
    exact writable path pathMember text given
  obtain ⟨files, written⟩ := Files.exists_writeAll isFileName_of_mem_outputs writes
  obtain ⟨err, run⟩ := translate_run configured created written
  have holds : made.HoldsLast ended.2.files directory
      (outputs emit (outcomes grammar settings made paths)) := by
    simp only [ended, run]
    exact Files.holdsLast_writeAll isFileName_of_mem_outputs written
  have own := own_outputs_iff holds
  refine ⟨by simp only [ended, run], holds, own, ?_⟩
  constructor
  · rintro ⟨-, distinct⟩
    exact nodup_outputPaths_iff.1 distinct
  · intro distinct
    -- With distinct stems no other source file has the output path of a source file.
    have kept := own.2 fun first firstMember second secondMember same text text' given given' => by
      obtain rfl := List.inj_on_of_nodup_map distinct firstMember secondMember same
      exact Option.some.inj (given.symm.trans given')
    refine ⟨fun path member text given => ?_, nodup_outputPaths_iff.2 distinct⟩
    exact ⟨outputName emit path, (isFileName_outputName emit path).plain,
      kept path member text given⟩

def unitsOfOneStem : Machine :=
  ⟨⟨[(["a", "x.py"], .file (some "pass\n")), (["b", "x.py"], .file (some "x\n"))]⟩, "", ""⟩

def unitPaths : List String := ["a/x.py", "b/x.py"]

def unitGrammar : Grammar := fun text =>
  let node (kind : String) (stop : Nat) (children : List RawTree) : RawTree :=
    ⟨kind, none, 0, stop, true, false, false, children⟩
  if text = "x\n" then
    .ok (node "module" 2 [node "expression_statement" 1 [node "identifier" 1 []]])
  else .ok (node "module" 5 [node "pass_statement" 4 []])

def unitsWithDirectory : Files :=
  ⟨(["out"], .directory) :: unitsOfOneStem.files.entries⟩

theorem read_unitsWithDirectory {name text : String} (plain : '/' ∉ name.toList) :
    unitsWithDirectory.read (Path.join "out" name) ≠ .ok text := by
  have opens : unitsWithDirectory.Opens "out" ["out"] := ⟨rfl, rfl⟩
  have missing : unitsWithDirectory.lookup? ["out", name] = none := by
    simp [Files.lookup?, unitsWithDirectory, unitsOfOneStem, List.lookup_cons, List.isPrefixOf]
  intro found
  rw [Files.read] at found
  split at found
  · cases found
  · cases found
  · rename_i place located
    obtain rfl | rfl | rfl := Files.target_eq_some (opens.target_of_locate plain located)
    · simp [missing] at found
    · simp [opens.isDirectory] at found
    · simp [Files.lookup?] at found

/-- Both source files are translated, but nothing in the output directory has the output of the
first one. -/
theorem output_of_shared_stem_lost :
    unitPaths.Nodup ∧
      ((chosenSettings (Host.ofFiles unitGrammar) none unitPaths).run unitsOfOneStem).1 = .ok {} ∧
      unitsOfOneStem.files.createDirectories "out" = .ok unitsWithDirectory ∧
      (∀ path ∈ unitPaths, ∀ text,
        output? unitGrammar {} unitsWithDirectory .python path = some text →
          ∃ files, unitsWithDirectory.write (outputPath "out" path .python) text = .ok files) ∧
      output? unitGrammar {} unitsWithDirectory .python "a/x.py" = some "pass\n" ∧
      output? unitGrammar {} unitsWithDirectory .python "b/x.py" = some "x\n" ∧
      ∃ ended, ((Command.translate unitPaths .python none (some "out")).run
          (Host.ofFiles unitGrammar)).run.run unitsOfOneStem = ended ∧
        ended.1 = .ok () ∧ ended.2.files.read "out/x.py" = .ok "x\n" ∧
        ∀ name, '/' ∉ name.toList → ended.2.files.read (Path.join "out" name) ≠ .ok "pass\n" := by
  have configured : ((chosenSettings (Host.ofFiles unitGrammar) none unitPaths).run
      unitsOfOneStem).1 = .ok {} := rfl
  have created : unitsOfOneStem.files.createDirectories "out" = .ok unitsWithDirectory := rfl
  have writable : ∀ path ∈ unitPaths, ∀ text,
      output? unitGrammar {} unitsWithDirectory .python path = some text →
        ∃ files, unitsWithDirectory.write (outputPath "out" path .python) text = .ok files := by
    intro path member text _
    simp only [unitPaths, List.mem_cons, List.not_mem_nil, or_false] at member
    obtain rfl | rfl := member
    · exact ⟨_, rfl⟩
    · exact ⟨_, rfl⟩
  have failures : unitPaths.countP
      (fun path => !(outcome unitGrammar {} unitsWithDirectory path).isOk) = 0 := by decide
  have given : outputs .python (outcomes unitGrammar {} unitsWithDirectory unitPaths) =
      [("x.py", "pass\n"), ("x.py", "x\n")] := by decide
  have translated := outputs_kept_iff_stems_distinct configured created writable
  simp only [failures, given] at translated
  refine ⟨by decide, configured, created, writable, by decide, by decide, ?_⟩
  -- The run as such is not evaluated: what it leaves follows from the outputs.
  generalize ((Command.translate unitPaths .python none (some "out")).run
    (Host.ofFiles unitGrammar)).run.run unitsOfOneStem = ended at translated ⊢
  obtain ⟨succeeded, holds, -, -⟩ := translated
  have target : "out/x.py" = Path.join "out" "x.py" := by decide
  refine ⟨ended, rfl, succeeded, ?_, fun name plain found => ?_⟩
  · rw [target]
    exact holds "x.py" (by decide)
  · rw [holds name plain, Table.get?_ofList] at found
    by_cases same : name = "x.py"
    · subst same
      exact absurd found (by decide)
    · have other : [("x.py", "pass\n"), ("x.py", "x\n")].reverse.lookup name = none := by
        simp [Table.lookup_entry, same]
      rw [other] at found
      exact read_unitsWithDirectory plain found

end Kept

end NumericPython.Command
