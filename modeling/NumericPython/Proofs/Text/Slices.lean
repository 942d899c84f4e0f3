import NumericPython.Text.Row

set_option autoImplicit false

namespace NumericPython

namespace Text

theorem byteSize_takeBytes {n : Nat} {cs : List Char} (boundary : isBoundary n cs = true) :
    byteSize (takeBytes n cs) = n := by
  induction cs generalizing n with
  | nil => cases n <;> simp_all [isBoundary, takeBytes]
  | cons c cs ih =>
      cases n with
      | zero => simp
      | succ n =>
          simp only [isBoundary, Bool.and_eq_true, decide_eq_true_eq] at boundary
          have rest := ih boundary.2
          simp only [takeBytes, Nat.add_one_ne_zero, if_false, byteSize_cons, rest]
          omega

theorem isBoundary_dropBytes {n m : Nat} {cs : List Char} (le : n ≤ m)
    (first : isBoundary n cs = true) (second : isBoundary m cs = true) :
    isBoundary (m - n) (dropBytes n cs) = true := by
  induction cs generalizing n m with
  | nil =>
      cases n with
      | zero => simpa using second
      | succ n => simp [isBoundary] at first
  | cons c cs ih =>
      cases n with
      | zero => simpa using second
      | succ n =>
          obtain ⟨m, rfl⟩ : ∃ k, m = k + 1 := ⟨m - 1, by omega⟩
          simp only [isBoundary, Bool.and_eq_true, decide_eq_true_eq] at first second
          have rest := ih (by omega) first.2 second.2
          have same : m + 1 - c.utf8Size - (n + 1 - c.utf8Size) = m + 1 - (n + 1) := by omega
          rw [same] at rest
          simpa [dropBytes] using rest

-- A place is in the first part of a text or in the second one.
theorem place_cases {first second front back : List Char} {c : Char}
    (place : first ++ second = front ++ c :: back) :
    (∃ rest, first = front ++ c :: rest) ∨
      ∃ more, front = first ++ more ∧ second = more ++ c :: back := by
  rcases List.append_eq_append_iff.1 place with ⟨more, rfl, found⟩ | ⟨rest, rfl, found⟩
  · exact .inr ⟨more, rfl, found⟩
  · cases rest with
    | nil => exact .inr ⟨[], by simp, by simpa using found.symm⟩
    | cons d rest =>
        obtain ⟨rfl, -⟩ := List.cons.inj found
        exact .inl ⟨rest, rfl⟩

theorem prefix_of_byteSize_le {first second rest behind : List Char}
    (same : first ++ rest = second ++ behind) (le : byteSize first ≤ byteSize second) :
    ∃ middle, second = first ++ middle ∧ rest = middle ++ behind := by
  rcases List.append_eq_append_iff.1 same with ⟨middle, rfl, found⟩ | ⟨middle, rfl, found⟩
  · exact ⟨middle, rfl, found⟩
  · -- The second part is not shorter, so that nothing stands between them.
    cases middle with
    | nil => exact ⟨[], by simp, by simpa using found.symm⟩
    | cons c middle =>
        have size := c.utf8Size_pos
        rw [byteSize_append, byteSize_cons] at le
        omega

end Text

namespace Source

/-- A text stands in the source from byte `start` to byte `stop`. -/
def Covers (source : Source) (start stop : Nat) (text : String) : Prop :=
  ∃ before after, source.chars = before ++ text.toList ++ after ∧
    Text.byteSize before = start ∧ Text.byteSize (before ++ text.toList) = stop

theorem covers_slice {source : Source} {start stop : Nat} (le : start ≤ stop)
    (first : Text.isBoundary start source.chars = true)
    (second : Text.isBoundary stop source.chars = true) :
    source.Covers start stop (source.slice start stop) := by
  have front := Text.byteSize_takeBytes first
  have inside := Text.byteSize_takeBytes (Text.isBoundary_dropBytes le first second)
  refine ⟨Text.takeBytes start source.chars,
    Text.dropBytes (stop - start) (Text.dropBytes start source.chars), ?_, front, ?_⟩
  · rw [Source.slice, String.toList_ofList, Text.slice, List.append_assoc,
      Text.takeBytes_append_dropBytes, Text.takeBytes_append_dropBytes]
  · rw [Source.slice, String.toList_ofList, Text.slice, Text.byteSize_append, front, inside]
    omega

section Covers

variable {source : Source} {start stop : Nat} {text : String}

theorem Covers.slice_eq (covers : source.Covers start stop text) : source.slice start stop = text := by
  obtain ⟨before, after, chars, rfl, rfl⟩ := covers
  rw [Source.slice, chars, Text.byteSize_append, Text.slice_append, String.ofList_toList]

theorem Covers.stop_eq (covers : source.Covers start stop text) :
    stop = start + Text.byteSize text.toList := by
  obtain ⟨before, after, -, rfl, rfl⟩ := covers
  rw [Text.byteSize_append]

theorem Covers.stop_le (covers : source.Covers start stop text) :
    stop ≤ Text.byteSize source.chars := by
  obtain ⟨before, after, chars, -, rfl⟩ := covers
  rw [chars, Text.byteSize_append _ after]
  omega

theorem Covers.le (covers : source.Covers start stop text) : start ≤ stop := by
  have stop := covers.stop_eq
  omega

theorem Covers.part {first last : Nat} {part : String} (covers : source.Covers start stop text)
    (inside : (ofString text).Covers first last part) :
    source.Covers (start + first) (start + last) part := by
  obtain ⟨before, after, chars, rfl, -⟩ := covers
  obtain ⟨front, back, inner, rfl, rfl⟩ := inside
  have whole : text.toList = front ++ part.toList ++ back := inner
  refine ⟨before ++ front, back ++ after, ?_, ?_, ?_⟩
  · rw [chars, whole]
    simp only [List.append_assoc]
  · rw [Text.byteSize_append]
  · rw [List.append_assoc, Text.byteSize_append]

end Covers

/-- From byte `start` on, `c` stands first at byte `place`. -/
def FirstFrom (source : Source) (start : Nat) (c : Char) (place : Nat) : Prop :=
  ∃ before front after, source.chars = before ++ (front ++ c :: after) ∧
    Text.byteSize before = start ∧ Text.byteSize (before ++ front) = place ∧ c ∉ front

section FirstFrom

variable {source : Source} {start place : Nat} {c : Char}

theorem FirstFrom.le (first : source.FirstFrom start c place) {before after : List Char}
    (chars : source.chars = before ++ c :: after) (behind : start ≤ Text.byteSize before) :
    place ≤ Text.byteSize before := by
  obtain ⟨front, middle, rest, same, rfl, rfl, none⟩ := first
  obtain ⟨inner, rfl, found⟩ := Text.prefix_of_byteSize_le (same.symm.trans chars) behind
  rw [Text.byteSize_append, Text.byteSize_append]
  rcases Text.place_cases found with ⟨rest, rfl⟩ | ⟨more, rfl, -⟩
  · exact absurd (by simp) none
  · rw [Text.byteSize_append]
    omega

theorem FirstFrom.unique {other : Nat} (first : source.FirstFrom start c place)
    (second : source.FirstFrom start c other) : place = other := by
  apply Nat.le_antisymm
  · obtain ⟨before, front, after, chars, rfl, rfl, -⟩ := second
    rw [← List.append_assoc] at chars
    exact first.le chars (by simp)
  · obtain ⟨before, front, after, chars, rfl, rfl, -⟩ := first
    rw [← List.append_assoc] at chars
    exact second.le chars (by simp)

end FirstFrom

end Source

end NumericPython
