import NumericPython.Files.Store
import NumericPython.Proofs.Ast.Table
import NumericPython.Proofs.Files.Paths

set_option autoImplicit false

namespace NumericPython.Files

variable {files : Files}

section Places

theorem lookup_filter_of_ne {place other : List String} (apart : other ≠ place)
    (entries : List (List String × Entry)) :
    (entries.filter (·.1 != place)).lookup other = entries.lookup other := by
  induction entries with
  | nil => rfl
  | cons entry rest ih =>
      by_cases replaced : entry.1 = place
      · have passed : (other == entry.1) = false := by simpa [replaced] using apart
        rw [List.filter_cons_of_neg (by simp [replaced]), ih, List.lookup_cons, passed]
      · rw [List.filter_cons_of_pos (by simp [replaced]), List.lookup_cons, List.lookup_cons, ih]

theorem any_isPrefixOf {place : List String} {entries : List (List String × Entry)} :
    (entries.any fun (other, _) => place.isPrefixOf other) = true ↔
      ∃ entry ∈ entries, place <+: entry.1 := by
  simp

-- What leads to a directory leads to an entry.
theorem exists_entry_of_directory {place above : List String}
    (found : files.lookup? place = some .directory) (leads : above <+: place) (named : above ≠ []) :
    ∃ entry ∈ files.entries, above <+: entry.1 := by
  have further : place ≠ [] := fun empty => named (List.prefix_nil.1 (empty ▸ leads))
  rw [lookup?, if_neg (by simpa using further)] at found
  cases listed : files.entries.lookup place with
  | some entry =>
      obtain ⟨before, after, spelled, -⟩ := List.lookup_eq_some_iff.1 listed
      exact ⟨(place, entry), by simp [spelled], leads⟩
  | none =>
      simp only [listed] at found
      split at found
      · rename_i below
        obtain ⟨entry, member, under⟩ := any_isPrefixOf.1 below
        exact ⟨entry, member, leads.trans under⟩
      · cases found

theorem lookup?_put {base : List String} (around : files.lookup? base = some .directory)
    (name : String) (entry : Entry) (place : List String) :
    (files.put (base ++ [name]) entry).lookup? place =
      if place = base ++ [name] then some entry else files.lookup? place := by
  by_cases root : place = []
  · simp [lookup?, root]
  by_cases same : place = base ++ [name]
  · simp [lookup?, put, same]
  · have listed : (files.put (base ++ [name]) entry).entries.lookup place =
        files.entries.lookup place := by
      have passed : (place == base ++ [name]) = false := by simpa using same
      rw [put, List.lookup_cons, passed]
      exact lookup_filter_of_ne same files.entries
    -- Only what leads to the new entry could change, and that leads to its directory as well.
    have below : ((files.put (base ++ [name]) entry).entries.any
        fun (other, _) => place.isPrefixOf other) =
          files.entries.any fun (other, _) => place.isPrefixOf other := by
      rw [Bool.eq_iff_iff, any_isPrefixOf, any_isPrefixOf]
      constructor
      · rintro ⟨found, member, leads⟩
        obtain rfl | member := List.mem_cons.1 member
        · have above : place <+: base := (List.prefix_concat_iff.1 leads).resolve_left same
          exact exists_entry_of_directory around above root
        · exact ⟨found, (List.mem_filter.1 member).1, leads⟩
      · rintro ⟨found, member, leads⟩
        by_cases replaced : found.1 = base ++ [name]
        · exact ⟨_, List.mem_cons_self, replaced ▸ leads⟩
        · exact ⟨found, List.mem_cons_of_mem _ (by simp [member, replaced]), leads⟩
    simp only [lookup?, listed, below, if_neg same]

theorem follow_cons (start : Option (List String)) (piece : String) (rest : List String) :
    files.follow start (piece :: rest) =
      (files.follow start [piece]).bind fun reached => files.follow reached rest := by
  cases start with
  | none =>
      simp only [follow]
      split <;> rfl
  | some place =>
      simp only [follow]
      split
      · rfl
      · rfl
      · repeat' split
        all_goals rfl

theorem follow_append (start : Option (List String)) (first second : List String) :
    files.follow start (first ++ second) =
      (files.follow start first).bind fun reached => files.follow reached second := by
  induction first generalizing start with
  | nil => rfl
  | cons piece rest ih =>
      rw [List.cons_append, follow_cons, follow_cons start piece rest]
      cases files.follow start [piece] with
      | error fault => rfl
      | ok reached => exact ih reached

-- A way stays open as long as the directories on it stay.
theorem follow_of_directories {other : Files} {start reached : Option (List String)}
    {pieces : List String}
    (kept : ∀ place, files.lookup? place = some .directory →
      other.lookup? place = some .directory)
    (found : files.follow start pieces = .ok reached) :
    other.follow start pieces = .ok reached := by
  fun_induction follow files start pieces with
  | case1 => exact found
  | _ => simp_all [follow]

end Places

section Directory

def textFault? (path : String) : Option FileFault :=
  if path.isEmpty then some .notFound
  else if path.toList.contains '\x00' then some .nulByte
  else if maxPathSize < path.utf8ByteSize then some .nameTooLong
  else none

theorem locate_eq (path : String) :
    files.locate path =
      match textFault? path with
      | some fault => .error fault
      | none => files.follow (if Path.isAbsolute path then none else some []) (Path.piecesOf path) := by
  rw [locate, textFault?]
  repeat' split
  all_goals simp_all

def enter (files : Files) (directory : String) : Except FileFault (Option (List String)) :=
  files.follow (if Path.isAbsolute (Path.join directory "") then none else some [])
    (Path.way directory)

/-- The path of a directory leads to a place, and there is a directory at that place. -/
structure Opens (files : Files) (directory : String) (base : List String) : Prop where
  enters : files.enter directory = .ok (some base)
  isDirectory : files.lookup? base = some .directory

def target (base : List String) (name : String) : Except FileFault (Option (List String)) :=
  if name = "" || name = "." then .ok (some base)
  else if name = ".." then .ok (if base.isEmpty then none else some base.dropLast)
  else if maxNameSize < name.utf8ByteSize then .error .nameTooLong
  else .ok (some (base ++ [name]))

theorem target_eq_some {base place : List String} {name : String}
    (found : target base name = .ok (some place)) :
    place = base ++ [name] ∨ place = base ∨ place = base.dropLast := by
  unfold target at found
  split at found
  · exact .inr (.inl (by simpa using found.symm))
  split at found
  · by_cases top : base.isEmpty
    · simp [top] at found
    · exact .inr (.inr (by simpa [top] using found.symm))
  split at found
  · cases found
  · exact .inl (by simpa using found.symm)

theorem ne_of_target {base place : List String} {name other : String} (apart : other ≠ name)
    (found : target base other = .ok (some place)) : place ≠ base ++ [name] := by
  obtain rfl | rfl | rfl := target_eq_some found
  · simpa using apart
  · simp
  · intro same
    have longer := congrArg List.length same
    rw [List.length_dropLast, List.length_append, List.length_singleton] at longer
    omega

theorem target_of_isFileName {base place : List String} {name : String}
    (isName : Path.IsFileName name) (found : target base name = .ok (some place)) :
    place = base ++ [name] := by
  simp only [target, isName.nonempty, isName.notHere, isName.notAbove, decide_false,
    Bool.or_false, Bool.false_eq_true, if_false] at found
  split at found
  · cases found
  · cases found
    rfl

variable {directory name other text : String} {base : List String} {after : Files}

theorem locate_join (plain : '/' ∉ name.toList) :
    files.locate (Path.join directory name) =
      match textFault? (Path.join directory name) with
      | some fault => .error fault
      | none => (files.enter directory).bind fun reached => files.follow reached [name] := by
  rw [locate_eq, Path.piecesOf_join plain, Path.isAbsolute_join plain, follow_append, enter]

theorem Opens.locate_name (opens : files.Opens directory base) (plain : '/' ∉ name.toList) :
    files.locate (Path.join directory name) =
      match textFault? (Path.join directory name) with
      | some fault => .error fault
      | none => target base name := by
  have reached : files.follow (some base) [name] = target base name := by
    simp only [follow, opens.isDirectory, target]
  rw [locate_join plain, opens.enters, ← reached]
  rfl

-- What a name in a directory leads to depends on the files only through the place of the
-- directory.
theorem Opens.locate_congr (opens : files.Opens directory base)
    (opens' : after.Opens directory base) (plain : '/' ∉ name.toList) :
    after.locate (Path.join directory name) = files.locate (Path.join directory name) :=
  (opens'.locate_name plain).trans (opens.locate_name plain).symm

theorem Opens.target_of_locate (opens : files.Opens directory base) (plain : '/' ∉ name.toList)
    {reached : Option (List String)}
    (located : files.locate (Path.join directory name) = .ok reached) :
    target base name = .ok reached := by
  rw [opens.locate_name plain] at located
  split at located
  · cases located
  · exact located

theorem exists_opens (isName : Path.IsFileName name) {reached : Option (List String)}
    (located : files.locate (Path.join directory name) = .ok reached) :
    ∃ base, files.Opens directory base := by
  rw [locate_join isName.plain] at located
  split at located
  · cases located
  cases entered : files.enter directory with
  | error fault =>
      rw [entered] at located
      cases located
  | ok start =>
      rw [entered] at located
      cases start with
      | none =>
          -- Nothing but directories is known outside, and the name is none of theirs.
          simp [Except.bind, follow, isName.nonempty, isName.notHere, isName.notAbove] at located
      | some base =>
          refine ⟨base, entered, ?_⟩
          simp only [Except.bind, follow] at located
          split at located
          · cases located
          · cases located
          · assumption

theorem write_eq_ok_iff {path : String} :
    files.write path text = .ok after ↔
      ∃ place, files.locate path = .ok (some place) ∧ files.lookup? place ≠ some .directory ∧
        files.put place (.file (some text)) = after := by
  rw [write]
  split
  · simp_all
  · simp_all
  · rename_i place located
    by_cases taken : files.lookup? place = some .directory <;> simp [located, taken]

/-- A directory in which a file of some name can be written. -/
structure Admits (files : Files) (directory : String) (base : List String) (name : String) : Prop where
  opens : files.Opens directory base
  located : files.locate (Path.join directory name) = .ok (some (base ++ [name]))
  free : files.lookup? (base ++ [name]) ≠ some .directory

theorem admits_of_write (isName : Path.IsFileName name)
    (written : files.write (Path.join directory name) text = .ok after) :
    ∃ base, files.Admits directory base name ∧
      files.put (base ++ [name]) (.file (some text)) = after := by
  obtain ⟨place, located, free, rfl⟩ := write_eq_ok_iff.1 written
  obtain ⟨base, opens⟩ := exists_opens isName located
  obtain rfl := target_of_isFileName isName (opens.target_of_locate isName.plain located)
  exact ⟨base, ⟨opens, located, free⟩, rfl⟩

theorem Opens.put (opens : files.Opens directory base)
    (free : files.lookup? (base ++ [name]) ≠ some .directory) (content : Option String) :
    (files.put (base ++ [name]) (.file content)).Opens directory base := by
  have kept : ∀ place, files.lookup? place = some .directory →
      (files.put (base ++ [name]) (.file content)).lookup? place = some .directory := by
    intro place found
    have apart : place ≠ base ++ [name] := by
      rintro rfl
      exact free found
    rw [lookup?_put opens.isDirectory, if_neg apart, found]
  exact ⟨follow_of_directories kept opens.enters, kept base opens.isDirectory⟩

theorem read_write (isName : Path.IsFileName name) (plain : '/' ∉ other.toList)
    (written : files.write (Path.join directory name) text = .ok after) :
    after.read (Path.join directory other) =
      if other = name then .ok text else files.read (Path.join directory other) := by
  obtain ⟨base, admits, rfl⟩ := admits_of_write isName written
  have opens := admits.opens.put admits.free (some text)
  have found := lookup?_put admits.opens.isDirectory name (.file (some text))
  rw [read, admits.opens.locate_congr opens plain]
  by_cases same : other = name
  · rw [if_pos same, same, admits.located]
    simp only [found, if_true]
  · rw [if_neg same, read]
    split
    · rfl
    · rfl
    · rename_i place located
      have apart : place ≠ base ++ [name] :=
        ne_of_target same (admits.opens.target_of_locate plain located)
      simp only [found, if_neg apart]

-- A file can still be written after another one.
theorem write_write {after' : Files} {text' : String} (isName : Path.IsFileName name)
    (isOther : Path.IsFileName other)
    (written : files.write (Path.join directory name) text = .ok after)
    (alone : files.write (Path.join directory other) text' = .ok after') :
    ∃ both, after.write (Path.join directory other) text' = .ok both := by
  obtain ⟨base, admits, rfl⟩ := admits_of_write isName written
  obtain ⟨place, located, free, -⟩ := write_eq_ok_iff.1 alone
  have opens := admits.opens.put admits.free (some text)
  refine ⟨_, write_eq_ok_iff.2 ⟨place, ?_, ?_, rfl⟩⟩
  · rw [admits.opens.locate_congr opens isOther.plain, located]
  · rw [lookup?_put admits.opens.isDirectory]
    split
    · simp
    · exact free

def writeAll (files : Files) (directory : String) :
    List (String × String) → Except FileFault Files
  | [] => .ok files
  | (name, text) :: rest =>
    match files.write (Path.join directory name) text with
    | .error fault => .error fault
    | .ok after => after.writeAll directory rest

-- Each write leaves the way open for the ones after it.
theorem exists_writeAll {outputs : List (String × String)}
    (names : ∀ output ∈ outputs, Path.IsFileName output.1)
    (writable : ∀ output ∈ outputs, ∃ after,
      files.write (Path.join directory output.1) output.2 = .ok after) :
    ∃ after, files.writeAll directory outputs = .ok after := by
  induction outputs generalizing files with
  | nil => exact ⟨files, rfl⟩
  | cons output rest ih =>
      rw [List.forall_mem_cons] at names writable
      obtain ⟨after, written⟩ := writable.1
      obtain ⟨last, others⟩ := @ih after names.2 fun next member =>
        (writable.2 next member).elim fun _ => write_write names.1 (names.2 next member) written
      exact ⟨last, by rw [writeAll, written]; exact others⟩

/-- Each name in a directory has the text that was written last under that name; the other names
have what they had before. -/
def HoldsLast (before after : Files) (directory : String) (written : List (String × String)) :
    Prop :=
  ∀ name, '/' ∉ name.toList →
    after.read (Path.join directory name) =
      ((Table.ofList written).get? name).elim (before.read (Path.join directory name)) .ok

-- The last write of a name is the first one in the reversed list, in front of all earlier ones.
theorem holdsLast_writeAll {outputs : List (String × String)}
    (names : ∀ output ∈ outputs, Path.IsFileName output.1)
    (written : files.writeAll directory outputs = .ok after) :
    files.HoldsLast after directory outputs := by
  intro name plain
  induction outputs generalizing files with
  | nil =>
      cases written
      rfl
  | cons output rest ih =>
      rw [List.forall_mem_cons] at names
      rw [writeAll] at written
      split at written
      · cases written
      rename_i next first
      rw [ih names.2 written, read_write names.1 plain first, Table.get?_ofList, Table.get?_ofList,
        List.reverse_cons, List.lookup_append, Table.lookup_entry]
      cases rest.reverse.lookup name with
      | some text => rfl
      | none => by_cases same : name = output.1 <;> simp [same]

end Directory

end NumericPython.Files
