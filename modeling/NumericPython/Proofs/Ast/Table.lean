import Mathlib.Data.List.Perm.Basic
import NumericPython.Ast.Table

set_option autoImplicit false

namespace NumericPython.Table

variable {α : Type} {holds : α → Prop}

theorem forall_insertEntry {key : String} {value : α} {entries : List (String × α)}
    (new : holds value) (old : ∀ entry ∈ entries, holds entry.2) :
    ∀ entry ∈ insertEntry key value entries, holds entry.2 := by
  induction entries with
  | nil => simpa [insertEntry] using new
  | cons first rest ih =>
      simp only [List.mem_cons, forall_eq_or_imp] at old
      rw [insertEntry]
      split
      · simp only [List.mem_cons, forall_eq_or_imp]
        exact ⟨new, old.2⟩
      · simp only [List.mem_cons, forall_eq_or_imp]
        exact ⟨old.1, ih old.2⟩

theorem forall_insertAll {table : Table α} {added : List (String × α)}
    (old : ∀ entry ∈ table.entries, holds entry.2) (new : ∀ entry ∈ added, holds entry.2) :
    ∀ entry ∈ (table.insertAll added).entries, holds entry.2 := by
  induction added generalizing table with
  | nil => exact old
  | cons first rest ih =>
      simp only [List.mem_cons, forall_eq_or_imp] at new
      exact ih (forall_insertEntry new.1 old) new.2

theorem forall_ofList {added : List (String × α)} (new : ∀ entry ∈ added, holds entry.2) :
    ∀ entry ∈ (ofList added).entries, holds entry.2 :=
  forall_insertAll (by simp [empty]) new

section Lookup

theorem lookup_entry (key : String) (entry : String × α) (rest : List (String × α)) :
    (entry :: rest).lookup key = if key = entry.1 then some entry.2 else rest.lookup key := by
  rw [List.lookup_cons]
  by_cases same : key = entry.1
  · simp [same]
  · have other : (key == entry.1) = false := by simpa using same
    rw [other, if_neg same]

theorem keys_insertEntry {key : String} {value : α} (entries : List (String × α)) :
    (insertEntry key value entries).map Prod.fst =
      if key ∈ entries.map Prod.fst then entries.map Prod.fst
      else entries.map Prod.fst ++ [key] := by
  induction entries with
  | nil => rfl
  | cons first rest ih =>
      by_cases same : first.1 = key
      · simp [insertEntry, same]
      · have other : key ≠ first.1 := Ne.symm same
        rw [insertEntry, if_neg same, List.map_cons, List.map_cons, ih]
        by_cases old : key ∈ rest.map Prod.fst
        · rw [if_pos old, if_pos (List.mem_cons_of_mem _ old)]
        · rw [if_neg old, if_neg (by simpa [other] using old)]
          rfl

theorem lookup_insertEntry {key other : String} {value : α} (entries : List (String × α)) :
    (insertEntry key value entries).lookup other =
      if other = key then some value else entries.lookup other := by
  induction entries with
  | nil => exact lookup_entry other (key, value) []
  | cons first rest ih =>
      rw [insertEntry]
      by_cases replaced : first.1 = key
      · rw [if_pos replaced, lookup_entry, lookup_entry other first, replaced]
        by_cases same : other = key <;> simp [same]
      · rw [if_neg replaced, lookup_entry, lookup_entry other first, ih]
        by_cases same : other = key
        · have passed : other ≠ first.1 := by rw [same]; exact Ne.symm replaced
          rw [if_neg passed, if_pos same, if_pos same]
        · rw [if_neg same, if_neg same]

theorem keys_insertAll {table : Table α} {prior : List String} (old : table.keys = prior.eraseDups)
    (added : List (String × α)) :
    (table.insertAll added).keys = (prior ++ added.map Prod.fst).eraseDups := by
  induction added generalizing table prior with
  | nil => rw [insertAll_nil, old, List.map_nil, List.append_nil]
  | cons entry rest ih =>
      have next : (table.insert entry.1 entry.2).keys = (prior ++ [entry.1]).eraseDups := by
        have inserted : (table.insert entry.1 entry.2).keys =
            if entry.1 ∈ table.keys then table.keys else table.keys ++ [entry.1] :=
          keys_insertEntry table.entries
        rw [inserted, old, List.eraseDups_append]
        by_cases known : entry.1 ∈ prior <;> simp [List.removeAll, known, List.eraseDups_cons]
      rw [insertAll_cons, ih next, List.append_assoc]
      rfl

theorem get?_insertAll (table : Table α) (added : List (String × α)) (key : String) :
    (table.insertAll added).get? key = (added.reverse.lookup key).or (table.get? key) := by
  induction added generalizing table with
  | nil => rfl
  | cons entry rest ih =>
      have inserted : (table.insert entry.1 entry.2).get? key =
          if key = entry.1 then some entry.2 else table.get? key :=
        lookup_insertEntry table.entries
      rw [insertAll_cons, ih, inserted, List.reverse_cons, List.lookup_append, lookup_entry]
      by_cases same : key = entry.1
      · rw [if_pos same, if_pos same, Option.or_assoc, Option.some_or]
      · rw [if_neg same, if_neg same, List.lookup_nil, Option.or_none]

theorem keys_ofList (added : List (String × α)) :
    (ofList added).keys = (added.map Prod.fst).eraseDups :=
  @keys_insertAll _ empty [] rfl added

theorem get?_ofList (added : List (String × α)) (key : String) :
    (ofList added).get? key = added.reverse.lookup key := by
  have found := get?_insertAll empty added key
  rwa [show (empty : Table α).get? key = none from rfl, Option.or_none] at found

theorem get?_ofList_of_mem {added : List (String × α)} {key : String} {value : α}
    (member : (key, value) ∈ added) :
    ∃ last, (ofList added).get? key = some last ∧ (key, last) ∈ added := by
  rw [get?_ofList]
  cases found : added.reverse.lookup key with
  | none =>
      have absent := List.lookup_eq_none_iff.1 found (key, value) (List.mem_reverse.2 member)
      simp at absent
  | some last =>
      obtain ⟨before, behind, spelled, -⟩ := List.lookup_eq_some_iff.1 found
      refine ⟨last, rfl, List.mem_reverse.1 ?_⟩
      simp [spelled]

end Lookup

theorem insertEntry_new {key : String} {value : α} {entries : List (String × α)}
    (new : key ∉ entries.map Prod.fst) : insertEntry key value entries = entries ++ [(key, value)] := by
  induction entries with
  | nil => rfl
  | cons first rest ih =>
      rw [List.map_cons, List.mem_cons, not_or] at new
      rw [insertEntry, if_neg (Ne.symm new.1), ih new.2, List.cons_append]

theorem entries_insertAll (table : Table α) {added : List (String × α)}
    (distinct : ((table.entries ++ added).map Prod.fst).Nodup) :
    (table.insertAll added).entries = table.entries ++ added := by
  induction added generalizing table with
  | nil => simp
  | cons entry rest ih =>
      have new : entry.1 ∉ table.entries.map Prod.fst := by
        intro old
        rw [List.map_append, List.nodup_append] at distinct
        exact distinct.2.2 _ old _ (.head _) rfl
      have inserted : (table.insert entry.1 entry.2).entries = table.entries ++ [entry] :=
        insertEntry_new new
      have regroup : table.entries ++ [entry] ++ rest = table.entries ++ entry :: rest := by
        rw [List.append_assoc, List.singleton_append]
      rw [insertAll_cons, ih _ (by rwa [inserted, regroup]), inserted, regroup]

theorem entries_ofList_iff {added : List (String × α)} :
    (ofList added).entries = added ↔ (added.map Prod.fst).Nodup := by
  constructor
  · intro same
    have distinct := (ofList added).nodup
    rwa [same] at distinct
  · exact entries_insertAll empty

theorem length_ofList_iff {added : List (String × α)} :
    (ofList added).entries.length = added.length ↔ (added.map Prod.fst).Nodup := by
  constructor
  · intro same
    have distinct : (ofList added).keys.Nodup := (ofList added).nodup
    have among : (ofList added).keys ⊆ added.map Prod.fst := by
      rw [keys_ofList]
      exact fun key member => List.mem_eraseDups.1 member
    have perm : (ofList added).keys.Perm (added.map Prod.fst) :=
      (List.subperm_of_subset distinct among).perm_of_length_le (by simp [keys, same])
    exact perm.nodup_iff.1 distinct
  · intro distinct
    rw [entries_ofList_iff.2 distinct]

theorem ofList_entries (table : Table α) : ofList table.entries = table := by
  have entries := @entries_insertAll _ empty table.entries table.nodup
  obtain ⟨entries', nodup⟩ := table
  simp only [ofList]
  cases made : (empty : Table α).insertAll entries'
  rw [made] at entries
  simpa [empty] using entries

end NumericPython.Table
