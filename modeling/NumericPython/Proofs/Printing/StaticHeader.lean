import NumericPython.Printing.Node
import NumericPython.Proofs.Printing.HeaderEntries

set_option autoImplicit false

namespace NumericPython

namespace Printing

theorem headerText_eq {settings : Settings} {function : ForeignFunction} {header : String}
    (written : headerText settings function = .ok header) : ∃ types,
      (function.wrapperParameters.mapM fun parameter =>
        argumentType settings parameter.argument) = .ok types ∧
      header = pragmaText .header ["procedure", "static",
        function.wrapperName settings.wrapperPrefix ++ "(" ++ Text.joinWith "," types ++ ")"] := by
  simp only [headerText, bind_eq_ok] at written
  obtain ⟨types, typesWritten, same⟩ := written
  refine ⟨types, typesWritten, ?_⟩
  cases same
  apply String.toList_inj.1
  simp [pragmaText, Text.joinWith, PragmaFamily.name]

theorem wrapper_rows {settings : Settings} {function : ForeignFunction} {text : String}
    (printed : (Node.foreignFunction function).print settings = .ok text) :
    ∃ header parameters body,
      headerText settings function = .ok header ∧
      List.Forall₂ (fun parameter shown => parameterText parameter = .ok shown)
        function.wrapperParameters parameters ∧
      text = Text.joinWith "\n" (("from " ++ function.moduleName ++ " import " ++ function.name) ::
        header ::
        ("def " ++ callText (function.wrapperName settings.wrapperPrefix) parameters ++ ":") ::
        body) := by
  obtain ⟨lines, linesWritten, same⟩ := map_eq_ok.1 printed
  simp only [foreignFunctionLines, bind_eq_ok] at linesWritten
  obtain ⟨header, headerWritten, definition, definitionWritten, rows⟩ := linesWritten
  simp only [ForeignFunction.wrapper, FunctionDef.plain, functionLines, bind_eq_ok] at definitionWritten
  obtain ⟨decorators, decoratorsWritten, parameters, parametersWritten, body, _, definitionRows⟩ :=
    definitionWritten
  cases decoratorsWritten
  cases definitionRows
  cases rows
  refine ⟨header, parameters, ?_, headerWritten, mapM_eq_ok.1 parametersWritten, ?_⟩
  · exact (bodyLines 1 function.wrapperBody body).map (Line.render settings.indentWidth)
  · rw [← same]
    simp [Line.renderAll, Line.render, Text.spaces]

end Printing

open Printing

/-- The header of a wrapper is read back as a pragma whose last clause has one type for each parameter
of the definition, in the same order. -/
theorem wrapper_header_reads_back (settings : Settings) (function : ForeignFunction) {text : String}
    (printed : (Node.foreignFunction function).print settings = .ok text)
    (plainPrefix : ∀ c ∈ settings.wrapperPrefix.toList, Directive.isPlain c = true)
    (plainName : ∀ c ∈ function.name.toList, Directive.isPlain c = true)
    (closes : Directive.balanced 0 settings.arrayOrder.toList = true)
    (oneLine : '\n' ∉ settings.arrayOrder.toList) :
    ∃ header types parameters body,
      let name := function.wrapperName settings.wrapperPrefix
      text = Text.joinWith "\n" (("from " ++ function.moduleName ++ " import " ++ function.name) ::
        header :: ("def " ++ callText name parameters ++ ":") :: body) ∧
      Text.OneLine header ∧
      (∀ span field children,
        Lowering.lowerComment Directive.frontEnd ⟨.comment, span, header, field, children⟩ =
          .ok (.pragma .header ["procedure", "static", name ++ "(" ++ types ++ ")"])) ∧
      List.Forall₂ (fun parameter shown => parameterText parameter = .ok shown)
        function.wrapperParameters parameters ∧
      List.Forall₂
        (fun parameter entry =>
          Header.IsEntryOf settings.arrayOrder.toList parameter.argument entry)
        function.wrapperParameters (Header.entries types.toList) ∧
      (settings.arrayOrder.toList.count '[' = settings.arrayOrder.toList.count ']' →
        Header.countedEntries types.toList = Header.entries types.toList) := by
  obtain ⟨header, parameters, body, headerWritten, parametersWritten, rows⟩ := wrapper_rows printed
  obtain ⟨types, typesWritten, headerRow⟩ := headerText_eq headerWritten
  have each : ∀ entry ∈ types, ∃ argument,
      Header.IsEntryOf settings.arrayOrder.toList argument entry.toList := by
    intro entry member
    obtain ⟨parameter, _, written⟩ := mem_of_mapM typesWritten member
    exact ⟨_, Header.isEntryOf_argumentType written⟩
  have plain : ∀ c ∈ (function.wrapperName settings.wrapperPrefix).toList,
      Directive.isPlain c = true := by
    rw [ForeignFunction.wrapperName, String.toList_append, List.forall_mem_append]
    exact ⟨plainPrefix, plainName⟩
  -- The reader must take the name and the types for one word, whatever the types hold.
  have clause := Header.isClause_call closes each plain
  refine ⟨header, Text.joinWith "," types, parameters, body, rows, ?_, ?_, parametersWritten, ?_,
    fun even => ?_⟩
  · rw [headerRow]
    have oneName : Text.OneLine (function.wrapperName settings.wrapperPrefix) := by
      intro feed
      exact absurd (plain _ feed) (by decide)
    have oneList : Text.OneLine (Text.joinWith "," types) := by
      refine joinWith_oneLine (by decide) fun entry member => ?_
      obtain ⟨argument, isEntry⟩ := each entry member
      exact isEntry.oneLine oneLine
    refine (pragmaText_fillsLine _ ?_).2
    simp +decide [oneName, oneList]
  · intro span field children
    rw [headerRow]
    refine Grammar.lowerComment_pragmaText .header ?_ span field children
    simp +decide [clause]
  · rw [Header.entries_joined closes each, List.forall₂_map_right_iff]
    exact (mapM_eq_ok.1 typesWritten).imp fun _ _ => Header.isEntryOf_argumentType
  · rw [Header.countedEntries_joined closes even each, Header.entries_joined closes each]

def gridFunction : ForeignFunction where
  inner :=
    { FunctionDef.plain "f" [.plain ⟨"n", some ⟨.int, 0⟩⟩, .valued ⟨"x", some ⟨.float, 1⟩⟩ .nil] []
        with results := [⟨"y", some ⟨.float, 2⟩⟩] }
  moduleName := "grids"

theorem grid_header_reads_back :
    let settings : Settings := { wrapperPrefix := "w_", arrayOrder := "C ([i], j)" }
    let text := "from grids import f\n" ++
      "#$ header procedure static w_f(int,float[:],float[:,:](order=C ([i], j)))\n" ++
      "def w_f(n, x=None, y):\n    y = f(n, x)"
    (Node.foreignFunction gridFunction).print settings = .ok text ∧
      ∃ header types parameters body,
        text = Text.joinWith "\n" ("from grids import f" ::
          header :: ("def " ++ callText "w_f" parameters ++ ":") :: body) ∧
        Text.OneLine header ∧
        (∀ span field children,
          Lowering.lowerComment Directive.frontEnd ⟨.comment, span, header, field, children⟩ =
            .ok (.pragma .header ["procedure", "static", "w_f" ++ "(" ++ types ++ ")"])) ∧
        List.Forall₂ (fun parameter shown => parameterText parameter = .ok shown)
          gridFunction.wrapperParameters parameters ∧
        List.Forall₂
          (fun parameter entry =>
            Header.IsEntryOf "C ([i], j)".toList parameter.argument entry)
          gridFunction.wrapperParameters (Header.entries types.toList) ∧
        Header.countedEntries types.toList = Header.entries types.toList := by
  intro settings text
  have printed : (Node.foreignFunction gridFunction).print settings = .ok text := rfl
  obtain ⟨header, types, parameters, body, rows, oneLine, lowered, shown, entries, counted⟩ :=
    wrapper_header_reads_back settings gridFunction printed (List.all_eq_true.1 (by decide))
      (List.all_eq_true.1 (by decide)) (by decide) (by decide)
  exact ⟨printed, header, types, parameters, body, rows, oneLine, lowered, shown, entries,
    counted (by decide)⟩

end NumericPython
