import NumericPython.Proofs.Printing.FilledLines
import NumericPython.Proofs.Printing.Levels
import NumericPython.Proofs.Printing.Stateful

set_option autoImplicit false

namespace NumericPython

namespace Text

def indentLine (count : Nat) (line : List Char) : List Char :=
  if line.isEmpty then [] else List.replicate count ' ' ++ line

/-- The text with `count` spaces in front of each line that is not empty. -/
def indented (count : Nat) (text : String) : String :=
  String.ofList (['\n'].intercalate ((text.toList.splitOn '\n').map (indentLine count)))

theorem toList_joinWith_feed (texts : List String) :
    (joinWith "\n" texts).toList = ['\n'].intercalate (texts.map String.toList) := by
  induction texts with
  | nil => rfl
  | cons text rest ih =>
      cases rest with
      | nil => simp
      | cons next more =>
          rw [joinWith_cons_cons, String.toList_append, ih]
          simp [List.intercalate_cons_cons]

end Text

namespace Line

theorem render_deepen (width depth : Nat) {line : Line} (fills : line.Fills) :
    ((line.deepen depth).render width).toList =
      Text.indentLine (depth * width) (line.render width).toList := by
  cases line with
  | blank => rfl
  | text level content =>
      have some_char : content.toList ≠ [] := by
        intro none
        exact fills.1 (String.toList_inj.1 none)
      have wide : (level + depth) * width = depth * width + level * width := by
        rw [Nat.add_mul, Nat.add_comm]
      simp only [deepen, render, Text.spaces, String.toList_append, String.toList_ofList, wide,
        Text.indentLine, List.replicate_add, List.append_assoc]
      simp [some_char]

theorem no_feed_render (width : Nat) {line : Line} (fills : line.Fills) :
    '\n' ∉ (line.render width).toList := by
  cases line with
  | blank => simp [render]
  | text level content =>
      have plain : '\n' ∉ content.toList := fills.2
      simp [render, Text.spaces, plain]

theorem renderAll_deepen (width depth : Nat) {lines : List Line} (some_line : lines ≠ [])
    (fill : ∀ line ∈ lines, line.Fills) :
    renderAll width (lines.map (deepen depth)) =
      Text.indented (depth * width) (renderAll width lines) := by
  have plain : ∀ cs ∈ (lines.map (render width)).map String.toList, '\n' ∉ cs := by
    intro cs member
    simp only [List.mem_map] at member
    obtain ⟨_, ⟨line, found, rfl⟩, rfl⟩ := member
    exact no_feed_render width (fill line found)
  have parts : (renderAll width lines).toList.splitOn '\n' =
      (lines.map (render width)).map String.toList := by
    rw [renderAll, Text.toList_joinWith_feed]
    exact List.splitOn_intercalate '\n' plain (by simpa using some_line)
  have moved : ((lines.map (deepen depth)).map (render width)).map String.toList =
      ((lines.map (render width)).map String.toList).map (Text.indentLine (depth * width)) := by
    simp only [List.map_map]
    apply List.map_congr_left
    intro line found
    exact render_deepen width depth (fill line found)
  apply String.toList_inj.1
  rw [renderAll, Text.toList_joinWith_feed, moved, Text.indented, parts, String.toList_ofList]

end Line

open Printing

/-- A statement on level `depth` has its text from the outermost level, indented by `depth` levels,
or fails as it fails there; and a printer that starts on this level is on it again when it stops. -/
theorem printing_indents_uniformly (settings : Settings) {s : Stmt} (fills : s.FillsLines)
    (depth : Nat) :
    (stmtLines depth s).map (Line.renderAll settings.indentWidth) =
        ((Node.stmt s).print settings).map (Text.indented (depth * settings.indentWidth)) ∧
      (Printer.stmt settings.indentWidth s).runAt depth =
        ((stmtLines depth s).map (Line.renderAll settings.indentWidth), depth) := by
  refine ⟨?_, Printer.runAt_stmt depth s⟩
  have lines := @stmtLines_deepen depth 0 s
  rw [Nat.zero_add] at lines
  rw [lines, Node.print]
  cases written : stmtLines 0 s with
  | error cause => rfl
  | ok lines =>
      have moved := Line.renderAll_deepen settings.indentWidth depth (stmtLines_ne_nil written)
        (stmtLines_fill 0 s fills written)
      simp only [Except.map, moved]

def commentedClass : Stmt :=
  .classDef "A" [] [
    .plain "f" [.plain ⟨"x", none⟩] [.emptyLine, .comment "c"],
    .plain "g" [] [.whileLoop (.symbol (.plain "x")) [.expression (.string "a\nb")]]]

theorem commented_class_indents :
    commentedClass.FillsLines ∧
      (Printer.stmt 4 commentedClass).runAt 1 = (.ok ("    class A:\n" ++
        "        def f(x):\n\n            # c\n            pass\n\n" ++
        "        def g():\n            while x:\n                \"a\\nb\""), 1) := by
  have fills : commentedClass.FillsLines := by
    simp [commentedClass, FunctionDef.plain, Stmt.FillsLines, Stmt.MethodsFillLines,
      Stmt.DefinitionFillsLines, Stmt.BodyFillsLines, Parameter.FillsLine, Expr.NamesFillLines,
      Table.empty, Symbol.plain]
    decide
  refine ⟨fills, ?_⟩
  have indented := printing_indents_uniformly {} fills 1
  rw [indented.2, indented.1]
  decide +kernel

end NumericPython
