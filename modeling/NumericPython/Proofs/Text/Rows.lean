import NumericPython.Text.Row

set_option autoImplicit false

namespace NumericPython

namespace Row

def breaks (base : Nat) : List Char → List Nat
  | [] => []
  | c :: cs => if c = '\n' then (base + 1) :: breaks (base + 1) cs else breaks (base + c.utf8Size) cs

theorem map_start_extend (base : Nat) (c : Char) (rows : List Row) :
    (extend base c rows).map start = base :: (rows.map start).tail := by
  cases rows <;> rfl

theorem map_start_split (base : Nat) (cs : List Char) :
    (split base cs).map start = base :: breaks base cs := by
  induction cs generalizing base with
  | nil => rfl
  | cons c cs ih =>
      by_cases feed : c = '\n'
      · simp [split, breaks, feed, ih]
      · simp [split, breaks, feed, map_start_extend, ih]

-- A row starts between two characters.
theorem split_of_mem_breaks {base start : Nat} {cs : List Char}
    (member : start ∈ breaks base cs) :
    ∃ front back, cs = front ++ back ∧ base + Text.byteSize front = start := by
  induction cs generalizing base with
  | nil => cases member
  | cons c cs ih =>
      have further {base' : Nat} (moved : base' = base + c.utf8Size)
          (member : start ∈ breaks base' cs) :
          ∃ front back, c :: cs = front ++ back ∧ base + Text.byteSize front = start := by
        obtain ⟨front, back, rfl, rfl⟩ := ih member
        refine ⟨c :: front, back, rfl, ?_⟩
        rw [moved, Text.byteSize_cons, Nat.add_assoc]
      rw [breaks] at member
      split at member
      next feed =>
        have size : base + 1 = base + c.utf8Size := by
          rw [feed]
          rfl
        rcases List.mem_cons.1 member with rfl | member
        · refine ⟨[c], cs, rfl, ?_⟩
          rw [size]
          rfl
        · exact further size member
      next => exact further rfl member

theorem lt_of_mem_breaks {base x : Nat} {cs : List Char} (member : x ∈ breaks base cs) :
    base < x := by
  induction cs generalizing base with
  | nil => simp [breaks] at member
  | cons c cs ih =>
      by_cases feed : c = '\n'
      · simp only [breaks, feed, if_true, List.mem_cons] at member
        rcases member with rfl | member
        · omega
        · have := ih member
          omega
      · simp only [breaks, feed, if_false] at member
        have := ih member
        omega

theorem breaks_sorted (base : Nat) (cs : List Char) : (breaks base cs).Pairwise (· < ·) := by
  induction cs generalizing base with
  | nil => simp [breaks]
  | cons c cs ih =>
      by_cases feed : c = '\n'
      · simp only [breaks, feed, if_true, List.pairwise_cons]
        exact ⟨fun x member => lt_of_mem_breaks member, ih _⟩
      · simpa only [breaks, feed, if_false] using ih _

theorem start_split_sorted (base : Nat) (cs : List Char) :
    ((split base cs).map start).Pairwise (· < ·) := by
  rw [map_start_split, List.pairwise_cons]
  exact ⟨fun x member => lt_of_mem_breaks member, breaks_sorted base cs⟩

theorem le_of_count_le {base p i x : Nat} {cs : List Char} (found : (breaks base cs)[i]? = some x)
    (passed : (Text.takeBytes p cs).count '\n' ≤ i) : base + p ≤ x := by
  induction cs generalizing base p i with
  | nil => simp [breaks] at found
  | cons c cs ih =>
      by_cases zero : p = 0
      · have := lt_of_mem_breaks (List.mem_of_getElem? found)
        omega
      · simp only [Text.takeBytes, zero, if_false] at passed
        by_cases feed : c = '\n'
        · subst feed
          cases i with
          | zero => simp at passed
          | succ i =>
              simp only [breaks, if_true, List.getElem?_cons_succ] at found
              have size : '\n'.utf8Size = 1 := rfl
              have bound := ih (p := p - 1) found (by simpa [size] using passed)
              omega
        · simp only [breaks, feed, if_false] at found
          have bound := ih (p := p - c.utf8Size) found (by simpa [feed] using passed)
          omega

theorem le_of_lt_count {base p i x : Nat} {cs : List Char} (found : (breaks base cs)[i]? = some x)
    (before : i < (Text.takeBytes p cs).count '\n') : x ≤ base + p := by
  induction cs generalizing base p i with
  | nil => simp [breaks] at found
  | cons c cs ih =>
      by_cases zero : p = 0
      · simp [zero] at before
      · simp only [Text.takeBytes, zero, if_false] at before
        by_cases feed : c = '\n'
        · subst feed
          have size : '\n'.utf8Size = 1 := rfl
          cases i with
          | zero =>
              simp only [breaks, if_true, List.getElem?_cons_zero, Option.some.injEq] at found
              omega
          | succ i =>
              simp only [breaks, if_true, List.getElem?_cons_succ] at found
              have bound := ih (p := p - 1) found (by simpa [size] using before)
              omega
        · simp only [breaks, feed, if_false] at found
          have later : i < (Text.takeBytes (p - c.utf8Size) cs).count '\n' := by
            simpa [feed] using before
          have inside : p - c.utf8Size ≠ 0 := by
            intro none
            simp [none] at later
          have bound := ih found later
          omega

theorem le_byteSize_takeBytes {p : Nat} {cs : List Char} (more : Text.dropBytes p cs ≠ []) :
    p ≤ Text.byteSize (Text.takeBytes p cs) := by
  induction cs generalizing p with
  | nil => simp [Text.dropBytes] at more
  | cons c cs ih =>
      by_cases zero : p = 0
      · omega
      · simp only [Text.dropBytes, Text.takeBytes, zero, if_false, Text.byteSize_cons] at more ⊢
        have := ih more
        omega

theorem break_at_feed {base p : Nat} {cs : List Char}
    (feed : (Text.takeBytes p cs).getLast? = some '\n') :
    (breaks base cs)[(Text.takeBytes p cs).count '\n' - 1]? =
      some (base + Text.byteSize (Text.takeBytes p cs)) := by
  induction cs generalizing base p with
  | nil => simp [Text.takeBytes] at feed
  | cons c cs ih =>
      by_cases zero : p = 0
      · simp [zero] at feed
      · simp only [Text.takeBytes, zero, if_false] at feed ⊢
        by_cases last : Text.takeBytes (p - c.utf8Size) cs = []
        · simp only [last, List.getLast?_singleton, Option.some.injEq] at feed
          subst feed
          simp [breaks, last]
          rfl
        · have feed' : (Text.takeBytes (p - c.utf8Size) cs).getLast? = some '\n' := by
            rw [List.getLast?_cons_of_ne_nil last] at feed
            exact feed
          have some_feed : 0 < (Text.takeBytes (p - c.utf8Size) cs).count '\n' :=
            List.count_pos_iff.2 (List.mem_of_getLast? feed')
          by_cases isFeed : c = '\n'
          · subst isFeed
            have index : (Text.takeBytes (p - '\n'.utf8Size) cs).count '\n' + 1 - 1 =
                (Text.takeBytes (p - '\n'.utf8Size) cs).count '\n' - 1 + 1 := by omega
            simp only [breaks, if_true, List.count_cons_self, index, List.getElem?_cons_succ,
              ih feed', Text.byteSize_cons]
            simp [Nat.add_assoc]
            rfl
          · simp only [breaks, isFeed, if_false, Text.byteSize_cons]
            rw [List.count_cons_of_ne (by simpa using isFeed), ih feed', Nat.add_assoc]

theorem count_of_start {base i x : Nat} {cs : List Char}
    (found : (base :: breaks base cs)[i]? = some x) :
    (Text.takeBytes (x - base) cs).count '\n' = i := by
  induction cs generalizing base i with
  | nil =>
      cases i with
      | zero => simp [Text.takeBytes]
      | succ i => simp [breaks] at found
  | cons c cs ih =>
      cases i with
      | zero =>
          rw [List.getElem?_cons_zero, Option.some.injEq] at found
          simp [found]
      | succ i =>
          rw [List.getElem?_cons_succ] at found
          have later := lt_of_mem_breaks (List.mem_of_getElem? found)
          rw [breaks] at found
          rw [Text.takeBytes, if_neg (by omega)]
          by_cases feed : c = '\n'
          · rw [if_pos feed] at found
            have size : c.utf8Size = 1 := by
              rw [feed]
              rfl
            have rest := ih found
            rw [size, Nat.sub_sub, feed, List.count_cons_self, rest]
          · rw [if_neg feed] at found
            have rest := ih (i := i + 1) (by rwa [List.getElem?_cons_succ])
            rw [List.count_cons_of_ne (by simpa using feed), Nat.sub_sub, rest]

theorem takeBytes_sublist {p q : Nat} (le : p ≤ q) (cs : List Char) :
    (Text.takeBytes p cs).Sublist (Text.takeBytes q cs) := by
  induction cs generalizing p q with
  | nil => exact .refl _
  | cons c cs ih =>
      rw [Text.takeBytes, Text.takeBytes]
      by_cases zero : p = 0
      · rw [if_pos zero]
        exact List.nil_sublist _
      · rw [if_neg zero, if_neg (by omega)]
        exact (ih (by omega)).cons_cons c

theorem byteSize_takeBytes_of_le {p : Nat} {cs : List Char} (inside : p ≤ Text.byteSize cs) :
    p ≤ Text.byteSize (Text.takeBytes p cs) := by
  by_cases more : Text.dropBytes p cs = []
  · have whole := Text.takeBytes_append_dropBytes p cs
    rw [more, List.append_nil] at whole
    rwa [whole]
  · exact le_byteSize_takeBytes more

theorem count_lt_of_feed {p q : Nat} {cs : List Char} (less : p < q) (inside : q ≤ Text.byteSize cs)
    (feed : (Text.takeBytes q cs).getLast? = some '\n') :
    (Text.takeBytes p cs).count '\n' < (Text.takeBytes q cs).count '\n' := by
  induction cs generalizing p q with
  | nil => simp [Text.takeBytes] at feed
  | cons c cs ih =>
      by_cases zero : p = 0
      · rw [zero, Text.takeBytes_zero]
        exact List.count_pos_iff.2 (List.mem_of_getLast? feed)
      · rw [Text.byteSize_cons] at inside
        simp only [Text.takeBytes, zero, if_false, show q ≠ 0 by omega] at feed ⊢
        by_cases last : Text.takeBytes (q - c.utf8Size) cs = []
        · -- The line feed is a single byte, which leaves no room for `p`.
          simp only [last, List.getLast?_singleton, Option.some.injEq] at feed
          have size : c.utf8Size = 1 := by
            rw [feed]
            rfl
          have reached : q - c.utf8Size ≤ Text.byteSize (Text.takeBytes (q - c.utf8Size) cs) :=
            byteSize_takeBytes_of_le (by omega)
          rw [last, Text.byteSize_nil] at reached
          omega
        · rw [List.getLast?_cons_of_ne_nil last] at feed
          have further : q - c.utf8Size ≠ 0 := by
            intro none
            simp [none] at last
          have rest := ih (p := p - c.utf8Size) (q := q - c.utf8Size) (by omega) (by omega) feed
          rw [List.count_cons, List.count_cons]
          omega

end Row

namespace Source

variable (source : Source)

theorem start_of_mem_blankStarts {first last x : Nat} (member : x ∈ source.blankStarts first last) :
    ∃ i, first ≤ i ∧ i < last ∧ (0 :: Row.breaks 0 source.chars)[i]? = some x := by
  simp only [blankStarts, List.mem_map, List.mem_filter] at member
  obtain ⟨row, ⟨inRange, _⟩, rfl⟩ := member
  obtain ⟨i, found⟩ := List.mem_iff_getElem?.1 inRange
  rw [List.getElem?_drop, List.getElem?_take] at found
  split at found
  · next before =>
    refine ⟨first + i, by omega, before, ?_⟩
    rw [← Row.map_start_split, ← source.rows_eq, List.getElem?_map, found, Option.map_some]
  · cases found

theorem blankStarts_sorted (first last : Nat) :
    (source.blankStarts first last).Pairwise (· < ·) := by
  have rows : source.rows.Pairwise fun a b => a.start < b.start := by
    rw [source.rows_eq, ← List.pairwise_map]
    exact Row.start_split_sorted 0 source.chars
  rw [blankStarts, List.pairwise_map]
  exact rows.sublist (List.filter_sublist.trans ((List.drop_sublist ..).trans (List.take_sublist ..)))

theorem blankStarts_le_offset {first offset x : Nat}
    (member : x ∈ source.blankStarts first (source.rowAt offset)) : x ≤ offset := by
  obtain ⟨i, _, before, found⟩ := source.start_of_mem_blankStarts member
  cases i with
  | zero =>
      simp only [List.getElem?_cons_zero, Option.some.injEq] at found
      omega
  | succ i =>
      rw [List.getElem?_cons_succ] at found
      have bound := Row.le_of_lt_count found (Nat.lt_of_succ_lt before)
      omega

theorem offset_le_blankStarts {offset first last x : Nat} (later : source.rowAt offset < first)
    (member : x ∈ source.blankStarts first last) : offset ≤ x := by
  obtain ⟨i, after, _, found⟩ := source.start_of_mem_blankStarts member
  cases i with
  | zero => omega
  | succ i =>
      rw [List.getElem?_cons_succ] at found
      have passed : source.rowAt offset ≤ i := by omega
      have bound := Row.le_of_count_le found passed
      omega

theorem stop_le_blankStarts {stop last x : Nat} (feed : source.startsRow stop = true)
    (some_row : 0 < source.rowAt stop) (more : Text.dropBytes stop source.chars ≠ [])
    (member : x ∈ source.blankStarts (source.rowAt stop) last) : stop ≤ x := by
  obtain ⟨i, after, _, found⟩ := source.start_of_mem_blankStarts member
  cases i with
  | zero => omega
  | succ i =>
      rw [List.getElem?_cons_succ] at found
      by_cases passed : source.rowAt stop ≤ i
      · have bound := Row.le_of_count_le found passed
        omega
      · have last_feed : (Text.takeBytes stop source.chars).getLast? = some '\n' := by
          rw [startsRow] at feed
          rcases ends : (Text.takeBytes stop source.chars).getLast? with _ | c
          · rw [rowAt, List.getLast?_eq_none_iff.1 ends] at some_row
            simp at some_row
          · simpa [ends] using feed
        have index : i = (Text.takeBytes stop source.chars).count '\n' - 1 := by
          rw [rowAt] at after passed
          omega
        rw [index, Row.break_at_feed last_feed, Option.some.injEq] at found
        have size := Row.le_byteSize_takeBytes more
        omega

theorem rowAt_le_of_dropBytes {stop : Nat} (ends : Text.dropBytes stop source.chars = [])
    (offset : Nat) : source.rowAt offset ≤ source.rowAt stop := by
  have whole := Text.takeBytes_append_dropBytes stop source.chars
  rw [ends, List.append_nil] at whole
  have parts := congrArg (List.count '\n') (Text.takeBytes_append_dropBytes offset source.chars)
  rw [List.count_append] at parts
  rw [rowAt, rowAt, whole]
  omega

theorem length_rows : source.rows.length = source.chars.count '\n' + 1 := by
  have starts (base : Nat) (cs : List Char) : (Row.breaks base cs).length = cs.count '\n' := by
    induction cs generalizing base with
    | nil => rfl
    | cons c cs ih => by_cases feed : c = '\n' <;> simp [Row.breaks, feed, ih]
  have rows := congrArg List.length (Row.map_start_split 0 source.chars)
  rw [List.length_map, List.length_cons, starts, ← source.rows_eq] at rows
  exact rows

theorem stop_le_blankStarts_textRows {stop x : Nat} (feed : source.startsRow stop = true)
    (some_row : 0 < source.rowAt stop)
    (member : x ∈ source.blankStarts (source.rowAt stop) source.textRows) : stop ≤ x := by
  refine source.stop_le_blankStarts feed some_row (fun ends => ?_) member
  obtain ⟨i, after, before, _⟩ := source.start_of_mem_blankStarts member
  have whole := Text.takeBytes_append_dropBytes stop source.chars
  rw [ends, List.append_nil] at whole
  have last_feed : source.chars.getLast? = some '\n' := by
    rw [startsRow, whole] at feed
    rcases last : source.chars.getLast? with _ | c
    · rw [rowAt, whole, List.getLast?_eq_none_iff.1 last] at some_row
      simp at some_row
    · simpa [last] using feed
  rw [textRows, if_pos last_feed, source.length_rows] at before
  rw [rowAt, whole] at after
  omega

theorem rowAt_mono {first second : Nat} (le : first ≤ second) :
    source.rowAt first ≤ source.rowAt second :=
  (Row.takeBytes_sublist le source.chars).count_le '\n'

theorem row_of_mem_blankStarts {first last x : Nat} (member : x ∈ source.blankStarts first last) :
    ∃ row ∈ source.rows, row.isBlank = true ∧ row.start = x ∧
      first ≤ source.rowAt x ∧ source.rowAt x < last := by
  obtain ⟨i, lower, upper, found⟩ := source.start_of_mem_blankStarts member
  have number : source.rowAt x = i := Row.count_of_start found
  simp only [blankStarts, List.mem_map, List.mem_filter] at member
  obtain ⟨row, ⟨inside, blank⟩, same⟩ := member
  exact ⟨row, List.mem_of_mem_take (List.mem_of_mem_drop inside), blank, same, by omega, by omega⟩

theorem start_le_byteSize {row : Row} (member : row ∈ source.rows) :
    row.start ≤ Text.byteSize source.chars := by
  have start : row.start ∈ 0 :: Row.breaks 0 source.chars := by
    rw [← Row.map_start_split, ← source.rows_eq]
    exact List.mem_map_of_mem member
  rcases List.mem_cons.1 start with zero | later
  · omega
  · obtain ⟨front, back, whole, size⟩ := Row.split_of_mem_breaks later
    rw [whole, Text.byteSize_append]
    omega

theorem mem_blankStarts {row : Row} (member : row ∈ source.rows) (blank : row.isBlank = true)
    {first last : Nat} (lower : first ≤ source.rowAt row.start)
    (upper : source.rowAt row.start < last) : row.start ∈ source.blankStarts first last := by
  obtain ⟨i, found⟩ := List.mem_iff_getElem?.1 member
  have start : (0 :: Row.breaks 0 source.chars)[i]? = some row.start := by
    rw [← Row.map_start_split, ← source.rows_eq, List.getElem?_map, found, Option.map_some]
  have number : source.rowAt row.start = i := Row.count_of_start start
  refine List.mem_map_of_mem (List.mem_filter.2 ⟨List.mem_iff_getElem?.2 ⟨i - first, ?_⟩, blank⟩)
  rw [List.getElem?_drop, Nat.add_sub_cancel' (by omega), List.getElem?_take, if_pos (by omega), found]

theorem rowAt_blankStarts_sorted (first last : Nat) :
    ((source.blankStarts first last).map source.rowAt).Pairwise (· < ·) := by
  rw [List.pairwise_map]
  refine List.Pairwise.imp_of_mem ?_ (source.blankStarts_sorted first last)
  intro x y firstMember secondMember less
  obtain ⟨i, -, -, found⟩ := source.start_of_mem_blankStarts firstMember
  obtain ⟨j, -, -, found'⟩ := source.start_of_mem_blankStarts secondMember
  have number : source.rowAt x = i := Row.count_of_start found
  have number' : source.rowAt y = j := Row.count_of_start found'
  have le := source.rowAt_mono (Nat.le_of_lt less)
  have other : source.rowAt x ≠ source.rowAt y := by
    intro same
    rw [← number, same, number', found', Option.some.injEq] at found
    omega
  omega

theorem rowAt_lt_of_startsRow {offset stop : Nat} (before : offset < stop)
    (inside : stop ≤ Text.byteSize source.chars) (starts : source.startsRow stop = true) :
    source.rowAt offset < source.rowAt stop := by
  refine Row.count_lt_of_feed before inside ?_
  rcases last : (Text.takeBytes stop source.chars).getLast? with _ | c
  · have size := Row.byteSize_takeBytes_of_le inside
    rw [List.getLast?_eq_none_iff.1 last, Text.byteSize_nil] at size
    omega
  · rw [startsRow, last] at starts
    simpa using starts

end Source

end NumericPython
