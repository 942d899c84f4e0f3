import NumericPython.Printing.Line
import NumericPython.Proofs.Grammar.Statements
import NumericPython.Text.Row

set_option autoImplicit false

namespace NumericPython

namespace Line

variable {width : Nat}

def chars (width : Nat) (line : Line) : List Char :=
  (line.render width).toList

@[simp] theorem chars_text (level : Nat) (content : String) :
    chars width (text level content) = Grammar.spaces (level * width) ++ content.toList := by
  simp [chars, render, Text.spaces, Grammar.spaces]

def sheet (width : Nat) (lines : List Line) : List Char :=
  lines.flatMap fun line => line.chars width ++ ['\n']

@[simp] theorem sheet_nil : sheet width [] = [] := rfl

@[simp] theorem sheet_cons (line : Line) (rest : List Line) :
    sheet width (line :: rest) = line.chars width ++ '\n' :: sheet width rest := by
  simp [sheet]

@[simp] theorem sheet_append (first second : List Line) :
    sheet width (first ++ second) = sheet width first ++ sheet width second := by
  simp [sheet]

def extent (width : Nat) (lines : List Line) : Nat :=
  Text.byteSize (sheet width lines)

theorem extent_append (first second : List Line) :
    extent width (first ++ second) = extent width first + extent width second := by
  simp [extent]

theorem extent_singleton (line : Line) :
    extent width [line] = Text.byteSize (line.chars width) + 1 := by
  have feed : '\n'.utf8Size = 1 := rfl
  simp [extent, feed]

theorem extent_cons (line : Line) (rest : List Line) :
    extent width (line :: rest) = Text.byteSize (line.chars width) + 1 + extent width rest := by
  rw [← extent_singleton, ← extent_append, List.singleton_append]

theorem toList_renderAll {lines : List Line} (some_line : lines ≠ []) :
    (renderAll width lines ++ "\n").toList = sheet width lines := by
  induction lines with
  | nil => exact absurd rfl some_line
  | cons line rest ih =>
      cases rest with
      | nil => simp [renderAll, chars]
      | cons next more =>
          have later := ih (by simp)
          rw [renderAll, List.map_cons, List.map_cons, Text.joinWith_cons_cons, ← List.map_cons,
            ← renderAll, String.append_assoc, String.toList_append, later]
          simp [chars]

def AreRows (width : Nat) (lines : List Line) : Prop :=
  ∀ line ∈ lines, '\n' ∉ line.chars width

theorem AreRows.append {first second : List Line} (rows : AreRows width first)
    (rows' : AreRows width second) : AreRows width (first ++ second) := by
  intro line member
  rcases List.mem_append.1 member with member | member
  · exact rows line member
  · exact rows' line member

theorem areRows_cons {line : Line} {rest : List Line} :
    AreRows width (line :: rest) ↔ '\n' ∉ line.chars width ∧ AreRows width rest := by
  simp [AreRows]

@[simp] theorem areRows_nil : AreRows width [] := by
  simp [AreRows]

theorem areRows_append {first second : List Line} :
    AreRows width (first ++ second) ↔ AreRows width first ∧ AreRows width second := by
  simp [AreRows, or_imp, forall_and]

@[simp] theorem count_sheet {lines : List Line} (rows : AreRows width lines) :
    (sheet width lines).count '\n' = lines.length := by
  induction lines with
  | nil => rfl
  | cons line rest ih =>
      rw [areRows_cons] at rows
      simp [List.count_eq_zero.2 rows.1, ih rows.2]

def rowsFrom (width start : Nat) : List Line → List Row
  | [] => []
  | line :: rest =>
    ⟨start, line.chars width⟩ :: rowsFrom width (start + Text.byteSize (line.chars width) + 1) rest

@[simp] theorem length_rowsFrom (start : Nat) (lines : List Line) :
    (rowsFrom width start lines).length = lines.length := by
  induction lines generalizing start with
  | nil => rfl
  | cons line rest ih => simp [rowsFrom, ih]

theorem rowsFrom_append (start : Nat) (first second : List Line) :
    rowsFrom width start (first ++ second) =
      rowsFrom width start first ++ rowsFrom width (start + extent width first) second := by
  induction first generalizing start with
  | nil => rfl
  | cons line rest ih =>
      rw [List.cons_append, rowsFrom, rowsFrom, ih, extent_cons, List.cons_append]
      simp only [Nat.add_assoc]

theorem split_line {line : List Char} (row : '\n' ∉ line) (start : Nat) (after : List Char) :
    Row.split start (line ++ '\n' :: after) =
      ⟨start, line⟩ :: Row.split (start + Text.byteSize line + 1) after := by
  induction line generalizing start with
  | nil => rfl
  | cons c cs ih =>
      simp only [List.mem_cons, not_or] at row
      rw [List.cons_append, Row.split, if_neg (Ne.symm row.1), ih row.2]
      simp [Row.extend, Nat.add_assoc]

theorem split_sheet {lines : List Line} (rows : AreRows width lines) (start : Nat)
    (after : List Char) : Row.split start (sheet width lines ++ after) =
      rowsFrom width start lines ++ Row.split (start + extent width lines) after := by
  induction lines generalizing start with
  | nil => rfl
  | cons line rest ih =>
      rw [areRows_cons] at rows
      rw [sheet_cons, List.append_assoc, List.cons_append, split_line rows.1, ih rows.2, rowsFrom,
        extent_cons, List.cons_append]
      simp only [Nat.add_assoc]

end Line

namespace Text

theorem takeBytes_byteSize_add (xs ys : List Char) (n : Nat) :
    takeBytes (byteSize xs + n) (xs ++ ys) = xs ++ takeBytes n ys := by
  induction xs with
  | nil => simp
  | cons c cs ih =>
      have positive := c.utf8Size_pos
      have nonzero : c.utf8Size + byteSize cs + n ≠ 0 := by omega
      have rest : c.utf8Size + byteSize cs + n - c.utf8Size = byteSize cs + n := by omega
      rw [byteSize_cons, List.cons_append, takeBytes, if_neg nonzero, rest, ih, List.cons_append]

theorem takeBytes_append_of_le {xs : List Char} {n : Nat} (inside : n ≤ byteSize xs)
    (ys : List Char) : takeBytes n (xs ++ ys) = takeBytes n xs := by
  induction xs generalizing n with
  | nil =>
      obtain rfl : n = 0 := by simpa using inside
      simp
  | cons c cs ih =>
      rw [byteSize_cons] at inside
      by_cases zero : n = 0
      · simp [zero]
      · simp [takeBytes, zero, ih (show n - c.utf8Size ≤ byteSize cs by omega)]

theorem mem_of_mem_takeBytes {xs : List Char} {n : Nat} {c : Char} (member : c ∈ takeBytes n xs) :
    c ∈ xs := by
  rw [← takeBytes_append_dropBytes n xs]
  exact List.mem_append_left _ member

theorem takeBytes_ne_nil {xs : List Char} {n : Nat} (some_char : xs ≠ []) (positive : 0 < n) :
    takeBytes n xs ≠ [] := by
  cases xs with
  | nil => exact absurd rfl some_char
  | cons c cs => simp [takeBytes, Nat.ne_of_gt positive]

end Text

open Line

/-- In the source stand the lines `before`, then the lines `lines`, and then further ones. -/
def Source.Shows (source : Source) (width : Nat) (before lines : List Line) : Prop :=
  ∃ after, source.chars = sheet width (before ++ lines ++ after) ∧
    AreRows width (before ++ lines ++ after)

namespace Source.Shows

variable {source : Source} {width : Nat} {before lines rest : List Line} {line : Line} {p : Nat}

theorem left (shows : source.Shows width before (lines ++ rest)) :
    source.Shows width before lines := by
  obtain ⟨after, whole, rows⟩ := shows
  exact ⟨rest ++ after, by simpa using whole, by simpa using rows⟩

theorem right (shows : source.Shows width before (lines ++ rest)) :
    source.Shows width (before ++ lines) rest := by
  obtain ⟨after, whole, rows⟩ := shows
  exact ⟨after, by simpa using whole, by simpa using rows⟩

theorem next (shows : source.Shows width before (line :: rest)) :
    source.Shows width (before ++ [line]) rest :=
  @right _ _ _ [line] _ shows

theorem chars_eq (shows : source.Shows width before (line :: rest)) :
    ∃ after, source.chars = sheet width before ++ (line.chars width ++ '\n' :: after) ∧
      '\n' ∉ line.chars width ∧ AreRows width before := by
  obtain ⟨after, whole, rows⟩ := shows
  simp only [areRows_append, areRows_cons] at rows
  exact ⟨sheet width (rest ++ after), by simpa using whole, rows.1.2.1, rows.1.1⟩

theorem takeBytes_eq (shows : source.Shows width before (line :: rest))
    (low : extent width before ≤ p) (high : p ≤ extent width before + Text.byteSize (line.chars width)) :
    Text.takeBytes p source.chars =
      sheet width before ++ Text.takeBytes (p - extent width before) (line.chars width) := by
  obtain ⟨after, whole, _, _⟩ := shows.chars_eq
  have place : p = Text.byteSize (sheet width before) + (p - extent width before) := by
    rw [extent] at low ⊢
    omega
  rw [whole]
  nth_rewrite 1 [place]
  rw [Text.takeBytes_byteSize_add, Text.takeBytes_append_of_le (by omega)]

theorem rowAt_eq (shows : source.Shows width before (line :: rest))
    (low : extent width before ≤ p) (high : p ≤ extent width before + Text.byteSize (line.chars width)) :
    source.rowAt p = before.length := by
  obtain ⟨_, _, row, rows⟩ := shows.chars_eq
  have none_inside : (Text.takeBytes (p - extent width before) (line.chars width)).count '\n' = 0 :=
    List.count_eq_zero.2 fun member => row (Text.mem_of_mem_takeBytes member)
  rw [Source.rowAt, shows.takeBytes_eq low high, List.count_append, count_sheet rows, none_inside]
  rfl

theorem startsRow_eq (shows : source.Shows width before (line :: rest))
    (low : extent width before < p) (high : p ≤ extent width before + Text.byteSize (line.chars width)) :
    source.startsRow p = false := by
  obtain ⟨_, _, row, _⟩ := shows.chars_eq
  have some_char : line.chars width ≠ [] := by
    intro empty
    rw [empty, Text.byteSize_nil] at high
    omega
  have taken := Text.takeBytes_ne_nil some_char (Nat.sub_pos_of_lt low)
  rw [Source.startsRow, shows.takeBytes_eq (Nat.le_of_lt low) high, List.getLast?_append_of_ne_nil _ taken]
  have last := List.getLast?_eq_some_getLast taken
  have inside := Text.mem_of_mem_takeBytes (List.getLast_mem taken)
  rw [last]
  simp only [Option.all_some, beq_eq_false_iff_ne, ne_eq]
  intro feed
  rw [feed] at inside
  exact row inside

theorem rows_eq (shows : source.Shows width before lines) :
    ∃ later, source.rows =
      rowsFrom width 0 before ++ (rowsFrom width (extent width before) lines ++ later) := by
  obtain ⟨after, whole, rows⟩ := shows
  have split := split_sheet rows 0 []
  rw [List.append_nil, ← whole, ← source.rows_eq] at split
  rw [split]
  simp [rowsFrom_append, List.append_assoc]

theorem blankStarts_eq (shows : source.Shows width before (line :: rest)) {last : Nat}
    (more : before.length < last) :
    source.blankStarts before.length last =
      (if Text.isBlankLine (line.chars width) then [extent width before] else []) ++
        source.blankStarts (before.length + 1) last := by
  obtain ⟨later, rows⟩ := shows.rows_eq
  have here : source.rows[before.length]? = some ⟨extent width before, line.chars width⟩ := by
    rw [rows, List.getElem?_append_right (by simp)]
    simp [rowsFrom]
  have found : (source.rows.take last)[before.length]? =
      some ⟨extent width before, line.chars width⟩ := by
    rw [List.getElem?_take_of_lt more, here]
  obtain ⟨bound, value⟩ := List.getElem?_eq_some_iff.1 found
  rw [Source.blankStarts, List.drop_eq_getElem_cons bound, value, List.filter_cons, Row.isBlank]
  by_cases blank : Text.isBlankLine (line.chars width) = true
  · simp [blank, Source.blankStarts]
  · simp [blank, Source.blankStarts]

end Source.Shows

theorem Source.textRows_eq {source : Source} {width : Nat} {lines : List Line}
    (whole : source.chars = sheet width lines) (rows : AreRows width lines)
    (some_line : lines ≠ []) : source.textRows = lines.length := by
  have last : source.chars.getLast? = some '\n' := by
    obtain ⟨init, line, rfl⟩ := (List.eq_nil_or_concat lines).resolve_left some_line
    rw [whole]
    simp
  have split := split_sheet rows 0 []
  rw [List.append_nil, ← whole, ← source.rows_eq] at split
  rw [Source.textRows, if_pos last, split]
  simp [Row.split]

end NumericPython
