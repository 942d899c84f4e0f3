import NumericPython.Proofs.Grammar.Spelling
import NumericPython.Proofs.Printing.Printable
import NumericPython.Proofs.Text.OneLine

set_option autoImplicit false

namespace NumericPython

open Text

def Name.FillsLine : Name → Prop
  | symbol s => Text.FillsLine s.name
  | dotted name => ∀ part ∈ name.parts, Text.FillsLine part

namespace Expr

mutual

def NamesFillLines : Expr → Prop
  | symbol s => FillsLine s.name
  | dotted name => ∀ part ∈ name.parts, FillsLine part
  | tuple items | intrinsic _ items => AllNamesFillLines items
  | binary _ left right => left.NamesFillLines ∧ right.NamesFillLines
  | unary _ operand => operand.NamesFillLines
  | call callee args => callee.FillsLine ∧ AllNamesFillLines args
  | range start stop step => start.NamesFillLines ∧ stop.NamesFillLines ∧ step.NamesFillLines
  | indexed base index more =>
    base.NamesFillLines ∧ index.NamesFillLines ∧ AllNamesFillLines more
  | slice start stop step =>
    PartNamesFillLines start ∧ PartNamesFillLines stop ∧ PartNamesFillLines step
  | _ => True

def AllNamesFillLines : List Expr → Prop
  | [] => True
  | e :: rest => e.NamesFillLines ∧ AllNamesFillLines rest

def PartNamesFillLines : Option Expr → Prop
  | none => True
  | some e => e.NamesFillLines

end

theorem allNamesFillLines_iff (items : List Expr) :
    AllNamesFillLines items ↔ ∀ e ∈ items, e.NamesFillLines := by
  induction items <;> simp_all [AllNamesFillLines]

end Expr

namespace Printing

section Pieces

theorem joinWith_oneLine {separator : String} {texts : List String} (plain : OneLine separator)
    (all : ∀ text ∈ texts, OneLine text) : OneLine (joinWith separator texts) := by
  induction texts with
  | nil => simp +decide
  | cons text rest ih =>
      have first : OneLine text := all text (List.mem_cons_self ..)
      have later : OneLine (joinWith separator rest) :=
        ih fun other member => all other (List.mem_cons_of_mem _ member)
      cases rest with
      | nil => exact first
      | cons next more => simp [joinWith_cons_cons, first, plain, later]

theorem commaSeparated_oneLine {texts : List String} (all : ∀ text ∈ texts, OneLine text) :
    OneLine (commaSeparated texts) :=
  joinWith_oneLine (by decide) all

theorem callText_oneLine {callee : String} {texts : List String} (first : OneLine callee)
    (all : ∀ text ∈ texts, OneLine text) : OneLine (callText callee texts) := by
  simp +decide [callText, first, commaSeparated_oneLine all]

theorem parenthesized_oneLine (wrap : Bool) {text : String} (plain : OneLine text) :
    OneLine (parenthesized wrap text) := by
  cases wrap <;> simp +decide [parenthesized, plain]

theorem tupleText_oneLine {texts : List String} (all : ∀ text ∈ texts, OneLine text) :
    OneLine (tupleText texts) := by
  unfold tupleText
  split
  next item =>
    have first : OneLine item := all item (List.mem_cons_self ..)
    simp +decide [first]
  next items _ => simp +decide [commaSeparated_oneLine all]

theorem no_feed_of_isContent {quote : Char} {cs : List Char} (content : Grammar.IsContent quote cs) :
    '\n' ∉ cs := by
  induction content with
  | nil => simp
  | plain _ _ notFeed _ ih => simp [Ne.symm notFeed, ih]
  | escape notFeed _ ih => simp [Ne.symm notFeed, ih]

theorem quoted_oneLine (text : String) :
    OneLine (String.ofList (Quoted.encode text.toList)) := by
  have isQuote := Quoted.delimiter_isQuote text.toList
  have content := no_feed_of_isContent (Grammar.isContent_encodeChars isQuote text.toList)
  have notFeed : '\n' ≠ Quoted.delimiter text.toList := by
    intro same
    rw [← same] at isQuote
    cases isQuote
  simp only [OneLine, String.toList_ofList, Quoted.encode]
  simp [content, notFeed]

theorem no_feed_of_digits {cs : List Char} (digits : ∀ c ∈ cs, c.isDigit = true) : '\n' ∉ cs := by
  intro member
  cases digits _ member

theorem integer_oneLine (value : Int64) : OneLine (toString value.toInt) := by
  have digits := no_feed_of_digits
    (Numeral.isDigits_iff.1 (Decimal.isDigits_toDigits value.toInt.natAbs)).2
  have text : (toString value.toInt).toList = value.toInt.repr.toList := rfl
  rw [OneLine, text, Decimal.toList_repr_int]
  split <;> simp [digits]

theorem float_oneLine {value : Binary64} {text : String} (written : floatText value = .ok text) :
    OneLine text := by
  unfold floatText at written
  split at written
  next finite =>
    cases written
    have numeral : '\n' ∉ value.numeral.chars := by
      intro member
      rcases Numeral.mem_chars (Decimal.numeral_valid _ _).1 member with digit | mark
      · cases digit
      · cases mark
    have real : '\n' ∉ value.numeral.real := fun member =>
      numeral (List.mem_append_left _ member)
    rw [OneLine, Binary64.text_of_finite finite]
    split <;> simp [real]
  next => cases written

theorem dotted_oneLine {name : DottedName} (fill : ∀ part ∈ name.parts, FillsLine part) :
    OneLine name.text :=
  joinWith_oneLine (by decide) fun part member => (fill part member).2

theorem name_oneLine {name : Name} (fill : name.FillsLine) : OneLine name.text := by
  cases name with
  | symbol s => exact fill.2
  | dotted name => exact dotted_oneLine fill

theorem operator_oneLine (op : BinaryOperator) : OneLine op.text := by
  cases op <;> decide

theorem intrinsicName_oneLine (function : IntrinsicFunction) : OneLine function.name := by
  cases function with
  | math function => cases function <;> decide
  | _ => decide

theorem intrinsicText_oneLine {function : IntrinsicFunction} {args : List Expr}
    {texts : List String} (all : ∀ text ∈ texts, OneLine text) :
    OneLine (intrinsicText function args texts) := by
  unfold intrinsicText
  split
  next text =>
    have first : OneLine text := all text (List.mem_cons_self ..)
    simp +decide [parenthesized_oneLine _ first]
  next text axis =>
    have first : OneLine text := all text (List.mem_cons_self ..)
    have second : OneLine axis := all axis (by simp)
    simp +decide [parenthesized_oneLine _ first, second]
  next => exact callText_oneLine (intrinsicName_oneLine function) all

theorem indexText_cases {index : Expr} {text : String}
    (written : (sliceText? index).getD (exprText index) = .ok text) :
    sliceText? index = some (.ok text) ∨ exprText index = .ok text := by
  cases slice : sliceText? index with
  | none => exact .inr (by simpa [slice] using written)
  | some sliceWritten => exact .inl (by simpa [slice] using written)

end Pieces

mutual

theorem exprText_oneLine : ∀ (e : Expr), e.NamesFillLines →
    ∀ {text : String}, exprText e = .ok text → OneLine text
  | .integer value, _, _, written => by
      cases written
      exact integer_oneLine value
  | .float _, _, _, written => float_oneLine written
  | .complex _, _, _, written => by
      obtain ⟨part, floatWritten, rfl⟩ := map_eq_ok.1 written
      simp +decide [float_oneLine floatWritten]
  | .boolean value, _, _, written => by
      cases written
      cases value <;> decide
  | .string text, _, _, written => by
      cases written
      exact quoted_oneLine text
  | .nil, _, _, written => by
      cases written
      decide
  | .symbol _, fill, _, written => by
      cases written
      exact fill.2
  | .dotted _, fill, _, written => by
      cases written
      exact dotted_oneLine fill
  | .tuple items, fill, _, written => by
      obtain ⟨texts, itemsWritten, rfl⟩ := map_eq_ok.1 written
      exact tupleText_oneLine (exprTexts_oneLine items fill itemsWritten)
  | .binary op left right, fill, _, written => by
      cases ExprForm.of_written written with
      | binary leftWritten rightWritten =>
          have first := exprText_oneLine left fill.1 leftWritten
          have second := exprText_oneLine right fill.2 rightWritten
          simp +decide [parenthesized_oneLine _ first, parenthesized_oneLine _ second,
            operator_oneLine]
  | .unary op operand, fill, _, written => by
      cases ExprForm.of_written written with
      | neg operandWritten | not operandWritten =>
          have inner := exprText_oneLine operand fill operandWritten
          simp +decide [parenthesized_oneLine _ inner]
  | .call callee args, fill, _, written => by
      obtain ⟨texts, argsWritten, rfl⟩ := map_eq_ok.1 written
      exact callText_oneLine (name_oneLine fill.1) (exprTexts_oneLine args fill.2 argsWritten)
  | .range start stop step, fill, _, written => by
      cases ExprForm.of_written written with
      | range startWritten stopWritten stepWritten =>
          apply callText_oneLine (by decide)
          simp [exprText_oneLine start fill.1 startWritten,
            exprText_oneLine stop fill.2.1 stopWritten, exprText_oneLine step fill.2.2 stepWritten]
  | .indexed base index more, fill, _, written => by
      cases ExprForm.of_written written with
      | @indexed _ _ _ _ first others baseWritten firstWritten othersWritten =>
          have indices : OneLine (commaSeparated (first :: others)) := by
            apply commaSeparated_oneLine
            -- The first index is a slice or any other expression.
            have index : OneLine first := (indexText_cases firstWritten).elim
              (sliceText_oneLine index fill.2.1) (exprText_oneLine index fill.2.1)
            simpa using ⟨index, indexTexts_oneLine more fill.2.2 othersWritten⟩
          simp +decide [parenthesized_oneLine _ (exprText_oneLine base fill.1 baseWritten), indices]
  | .slice _ _ _, _, _, written => by cases written
  | .intrinsic _ args, fill, _, written => by
      obtain ⟨texts, argsWritten, rfl⟩ := map_eq_ok.1 written
      exact intrinsicText_oneLine (exprTexts_oneLine args fill argsWritten)

theorem exprTexts_oneLine : ∀ (items : List Expr), Expr.AllNamesFillLines items →
    ∀ {texts : List String}, exprTexts items = .ok texts → ∀ text ∈ texts, OneLine text
  | [], _, _, written => by
      cases written
      simp
  | e :: rest, fill, _, written => by
      obtain ⟨text, others, firstWritten, othersWritten, rfl⟩ := exprTexts_cons_ok.1 written
      simpa using ⟨exprText_oneLine e fill.1 firstWritten,
        exprTexts_oneLine rest fill.2 othersWritten⟩

theorem sliceText_oneLine : ∀ (e : Expr), e.NamesFillLines →
    ∀ {text : String}, sliceText? e = some (.ok text) → OneLine text
  | .slice start stop step, fill, _, written => by
      simp only [sliceText?, Option.some.injEq, bind_eq_ok] at written
      obtain ⟨startText, startWritten, stopText, stopWritten, stepText, stepWritten, same⟩ := written
      cases same
      have first := partText_oneLine start fill.1 startWritten
      have second := partText_oneLine stop fill.2.1 stopWritten
      have third := partText_oneLine step fill.2.2 stepWritten
      cases step <;> simp +decide [first, second, third]

theorem indexTexts_oneLine : ∀ (indices : List Expr), Expr.AllNamesFillLines indices →
    ∀ {texts : List String}, indexTexts indices = .ok texts → ∀ text ∈ texts, OneLine text
  | [], _, _, written => by
      cases written
      simp
  | index :: rest, fill, _, written => by
      obtain ⟨text, others, firstWritten, othersWritten, rfl⟩ := indexTexts_cons_ok.1 written
      have first : OneLine text := (indexText_cases firstWritten).elim
        (sliceText_oneLine index fill.1) (exprText_oneLine index fill.1)
      simpa using ⟨first, indexTexts_oneLine rest fill.2 othersWritten⟩

theorem partText_oneLine : ∀ (part : Option Expr), Expr.PartNamesFillLines part →
    ∀ {text : String}, partText part = .ok text → OneLine text
  | none, _, _, written => by
      cases written
      decide
  | some e, fill, _, written => exprText_oneLine e fill written

end

theorem integer_ne_empty (value : Int64) : toString value.toInt ≠ "" := by
  intro empty
  have digits := (Numeral.isDigits_iff.1 (Decimal.isDigits_toDigits value.toInt.natAbs)).1
  have text := Decimal.toList_repr_int value.toInt
  have none : value.toInt.repr.toList = [] := congrArg String.toList empty
  rw [none] at text
  split at text
  · cases text
  · exact digits text.symm

theorem float_ne_empty {value : Binary64} {text : String} (written : floatText value = .ok text) :
    text ≠ "" := by
  unfold floatText at written
  split at written
  next finite =>
    cases written
    intro empty
    have text := Binary64.text_of_finite finite
    have valid : value.numeral.Valid := (Decimal.numeral_valid _ _).1
    have digits := (Numeral.isDigits_iff.1 valid.whole).1
    rw [empty] at text
    have real : value.numeral.real = [] := (List.append_eq_nil_iff.1 text.symm).2
    exact digits (List.append_eq_nil_iff.1 real).1
  next => cases written

theorem callText_ne_empty (callee : String) (texts : List String) : callText callee texts ≠ "" := by
  simp [callText]

theorem exprText_ne_empty {e : Expr} (fill : e.NamesFillLines) {text : String}
    (written : exprText e = .ok text) : text ≠ "" := by
  cases ExprForm.of_written written with
  | integer value => exact integer_ne_empty value
  | float floatWritten => exact float_ne_empty floatWritten
  | boolean value => cases value <;> decide
  | string _ => simp [Quoted.encode]
  | nil => decide
  | symbol _ => exact fill.1
  | dotted name =>
      obtain ⟨parts, two_le, valid⟩ := name
      match parts, two_le with
      | first :: second :: rest, _ => simp [DottedName.text, joinWith_cons_cons]
  | tuple _ =>
      unfold tupleText
      split <;> simp
  | call _ | range _ _ _ => exact callText_ne_empty _ _
  | intrinsic _ =>
      unfold intrinsicText
      split
      · simp
      · simp
      · exact callText_ne_empty _ _
  -- The other forms have a sign or a bracket of their own.
  | complex _ | binary _ _ | neg _ | not _ | indexed _ _ _ => simp

theorem exprText_fillsLine {e : Expr} (fill : e.NamesFillLines) {text : String}
    (written : exprText e = .ok text) : FillsLine text :=
  ⟨exprText_ne_empty fill written, exprText_oneLine e fill written⟩

theorem openText_oneLine {e : Expr} (fill : e.NamesFillLines) {text : String}
    (written : openText e = .ok text) : OneLine text := by
  unfold openText at written
  split at written
  · obtain ⟨texts, itemsWritten, rfl⟩ := map_eq_ok.1 written
    exact commaSeparated_oneLine (exprTexts_oneLine _ fill itemsWritten)
  · exact exprText_oneLine e fill written

end Printing

end NumericPython
