import NumericPython.Files.Path

set_option autoImplicit false

namespace NumericPython.Path

theorem pieces_ne_nil (cs : List Char) : pieces cs ≠ [] := by
  cases cs with
  | nil => simp [pieces]
  | cons c cs =>
      rw [pieces]
      split
      · simp
      · split <;> simp

theorem pieces_append_slash (first second : List Char) :
    pieces (first ++ '/' :: second) = pieces first ++ pieces second := by
  induction first with
  | nil => simp [pieces]
  | cons c cs ih =>
      by_cases slash : c = '/'
      · simp [pieces, slash, ih]
      · cases found : pieces cs with
        | nil => exact absurd found (pieces_ne_nil cs)
        | cons piece rest => simp [pieces, slash, ih, found]

theorem pieces_of_no_slash {cs : List Char} (plain : '/' ∉ cs) : pieces cs = [cs] := by
  induction cs with
  | nil => rfl
  | cons c cs ih =>
      rw [List.mem_cons, not_or] at plain
      simp [pieces, Ne.symm plain.1, ih plain.2]

theorem no_slash_of_mem_pieces {cs piece : List Char} (member : piece ∈ pieces cs) :
    '/' ∉ piece := by
  induction cs generalizing piece with
  | nil => simp_all [pieces]
  | cons c cs ih =>
      rw [pieces] at member
      split at member
      · obtain rfl | member := List.mem_cons.1 member
        · exact List.not_mem_nil
        · exact ih member
      · rename_i other
        cases found : pieces cs with
        | nil => exact absurd found (pieces_ne_nil cs)
        | cons first rest =>
            simp only [found, List.mem_cons] at member
            obtain rfl | member := member
            · have tail := ih (found ▸ List.mem_cons_self)
              simp [tail, Ne.symm other]
            · exact ih (found ▸ List.mem_cons_of_mem _ member)

section Join

def way (directory : String) : List String :=
  (piecesOf (join directory "")).dropLast

-- The slash between a directory and a name is not written twice.
theorem join_cases (directory : String) :
    directory = "" ∨ ∃ above, ∀ name, join directory name = above ++ ("/" ++ name) := by
  cases found : directory.toList.getLast? with
  | none =>
      left
      exact String.toList_eq_nil_iff.1 (List.getLast?_eq_none_iff.1 found)
  | some c =>
      right
      by_cases slash : c = '/'
      · obtain ⟨above, spelled⟩ := List.getLast?_eq_some_iff.1 found
        refine ⟨String.ofList above, fun name => String.toList_inj.1 ?_⟩
        simp [join, slash, spelled]
      · refine ⟨directory, fun name => ?_⟩
        simp [join, found, String.append_assoc]

theorem join_empty (name : String) : join "" name = name := rfl

theorem join_injective {directory first second : String}
    (same : join directory first = join directory second) : first = second := by
  obtain rfl | ⟨above, spelled⟩ := join_cases directory
  · exact same
  · rw [spelled, spelled] at same
    exact (String.append_right_inj _).1 ((String.append_right_inj _).1 same)

variable {directory name : String}

theorem piecesOf_append_slash (above name : String) :
    piecesOf (above ++ ("/" ++ name)) = piecesOf above ++ piecesOf name := by
  simp [piecesOf, pieces_append_slash]

theorem piecesOf_of_no_slash (plain : '/' ∉ name.toList) : piecesOf name = [name] := by
  simp [piecesOf, pieces_of_no_slash plain]

theorem piecesOf_join (plain : '/' ∉ name.toList) :
    piecesOf (join directory name) = way directory ++ [name] := by
  have empty : piecesOf "" = [""] := rfl
  obtain rfl | ⟨above, spelled⟩ := join_cases directory
  · rw [way, join_empty, join_empty, empty, piecesOf_of_no_slash plain]
    rfl
  · rw [way, spelled, spelled, piecesOf_append_slash, piecesOf_append_slash, empty,
      List.dropLast_concat, piecesOf_of_no_slash plain]

theorem isAbsolute_join (plain : '/' ∉ name.toList) :
    isAbsolute (join directory name) = isAbsolute (join directory "") := by
  obtain rfl | ⟨above, spelled⟩ := join_cases directory
  · cases spelled : name.toList with
    | nil => simp [isAbsolute, join_empty, spelled]
    | cons c cs =>
        rw [spelled, List.mem_cons, not_or] at plain
        simp [isAbsolute, join_empty, spelled, Ne.symm plain.1]
  · simp [isAbsolute, spelled]

end Join

section Stems

theorem no_slash_of_mem_components {path name : String} (member : name ∈ components path) :
    '/' ∉ name.toList := by
  have among : name = "." ∨ name ∈ piecesOf path := by
    rw [components] at member
    split at member
    · simp at member
    · rename_i first rest spelled
      rw [spelled]
      split at member
      · rw [List.mem_cons, List.mem_filter] at member
        exact member.imp id fun kept => List.mem_cons_of_mem _ kept.1
      · exact .inr (List.mem_filter.1 member).1
  obtain rfl | among := among
  · decide
  · obtain ⟨piece, pieceMember, rfl⟩ := List.mem_map.1 among
    simpa using no_slash_of_mem_pieces pieceMember

theorem stem_subset (name : String) : (stem name).toList ⊆ name.toList := by
  intro c member
  simp only [stem] at member
  split at member
  · exact member
  · simp only [String.toList_ofList, List.mem_reverse] at member
    simpa using (List.dropWhile_suffix _).subset (List.mem_of_mem_drop member)

theorem no_slash_of_fileStem? {path name : String} (found : fileStem? path = some name) :
    '/' ∉ name.toList := by
  obtain ⟨file, named, rfl⟩ := Option.map_eq_some_iff.1 found
  have member : file ∈ components path := by
    rw [fileName?] at named
    split at named
    · rename_i last spelled
      split at named
      · cases named
      · cases named
        exact List.mem_of_getLast? spelled
    · cases named
  exact fun slash => no_slash_of_mem_components member (stem_subset file slash)

end Stems

/-- A name that a file can have: a single piece of a path that leads on from a directory. -/
structure IsFileName (name : String) : Prop where
  plain : '/' ∉ name.toList
  nonempty : name ≠ ""
  notHere : name ≠ "."
  notAbove : name ≠ ".."

end NumericPython.Path
