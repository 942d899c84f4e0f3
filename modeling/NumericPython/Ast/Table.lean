set_option autoImplicit false

namespace NumericPython

structure Table (α : Type) where
  entries : List (String × α)
  nodup : (entries.map Prod.fst).Nodup

namespace Table

variable {α : Type}

def empty : Table α := ⟨[], List.nodup_nil⟩

instance : Inhabited (Table α) := ⟨empty⟩

def keys (table : Table α) : List String :=
  table.entries.map Prod.fst

def get? (table : Table α) (key : String) : Option α :=
  table.entries.lookup key

def insertEntry (key : String) (value : α) : List (String × α) → List (String × α)
  | [] => [(key, value)]
  | entry :: rest =>
    if entry.1 = key then (key, value) :: rest else entry :: insertEntry key value rest

theorem mem_keys_insertEntry {key other : String} {value : α} {entries : List (String × α)} :
    other ∈ (insertEntry key value entries).map Prod.fst ↔
      other = key ∨ other ∈ entries.map Prod.fst := by
  induction entries with
  | nil => simp [insertEntry]
  | cons entry rest ih =>
      by_cases h : entry.1 = key
      · simp [insertEntry, h]
      · simp only [insertEntry, h, if_false, List.map_cons, List.mem_cons, ih]
        grind

theorem nodup_insertEntry {key : String} {value : α} {entries : List (String × α)}
    (h : (entries.map Prod.fst).Nodup) : ((insertEntry key value entries).map Prod.fst).Nodup := by
  induction entries with
  | nil => simp [insertEntry]
  | cons entry rest ih =>
      simp only [List.map_cons, List.nodup_cons] at h
      by_cases he : entry.1 = key
      · simp only [insertEntry, he, if_true, List.map_cons, List.nodup_cons]
        exact ⟨he ▸ h.1, h.2⟩
      · simp only [insertEntry, he, if_false, List.map_cons, List.nodup_cons]
        refine ⟨?_, ih h.2⟩
        rw [mem_keys_insertEntry]
        exact fun hm => hm.elim he h.1

def insert (table : Table α) (key : String) (value : α) : Table α :=
  ⟨insertEntry key value table.entries, nodup_insertEntry table.nodup⟩

def insertAll (table : Table α) (entries : List (String × α)) : Table α :=
  entries.foldl (fun t entry => t.insert entry.1 entry.2) table

@[simp] theorem insertAll_nil (table : Table α) : table.insertAll [] = table := rfl

@[simp] theorem insertAll_cons (table : Table α) (entry : String × α)
    (rest : List (String × α)) :
    table.insertAll (entry :: rest) = (table.insert entry.1 entry.2).insertAll rest := rfl

@[simp] theorem insertAll_append (table : Table α) (first second : List (String × α)) :
    table.insertAll (first ++ second) = (table.insertAll first).insertAll second := by
  simp [insertAll]

def ofList (entries : List (String × α)) : Table α :=
  empty.insertAll entries

/-- Whether two tables have equal values under the same keys, in whatever order. -/
def same (eq : α → α → Bool) (left right : Table α) : Bool :=
  left.entries.length == right.entries.length &&
    left.entries.all fun (key, value) => (right.get? key).any (eq value)

end Table

end NumericPython
