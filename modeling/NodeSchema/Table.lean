set_option autoImplicit false

/-! Tables: values under distinct string keys, kept in the order the keys were first
inserted. Declarations are looked up by name and always listed in the order they were
written, so one structure serves both. Inserting under a key already present replaces its
value where it stands. The distinctness of the keys is part of the type. -/

namespace NodeSchema

/-- Stores `value` under `key` in an entry list: an existing entry keeps its place and takes
the new value, a new key goes last. -/
def upsertEntry {α : Type} (key : String) (value : α) : List (String × α) → List (String × α)
  | [] => [(key, value)]
  | (k, v) :: rest => if k = key then (k, value) :: rest else (k, v) :: upsertEntry key value rest

theorem upsertEntry_keys {α : Type} (key : String) (value : α) (entries : List (String × α)) :
    (upsertEntry key value entries).map Prod.fst =
      if key ∈ entries.map Prod.fst then entries.map Prod.fst else entries.map Prod.fst ++ [key] := by
  induction entries with
  | nil => simp [upsertEntry]
  | cons head rest ih =>
    obtain ⟨k, v⟩ := head
    by_cases same : k = key
    · subst same; simp [upsertEntry]
    · have differ : key ≠ k := fun h => same h.symm
      simp only [upsertEntry, same, if_false, List.map_cons, ih, List.mem_cons, differ, false_or]
      split <;> simp

theorem find?_upsertEntry {α : Type} (key : String) (value : α) (entries : List (String × α))
    (query : String) :
    ((upsertEntry key value entries).find? (fun e => e.1 == query)).map Prod.snd =
      if query = key then some value else (entries.find? (fun e => e.1 == query)).map Prod.snd := by
  induction entries with
  | nil =>
    by_cases same : query = key
    · subst same; simp [upsertEntry]
    · simp [upsertEntry, same, Ne.symm same]
  | cons head rest ih =>
    obtain ⟨k, v⟩ := head
    by_cases hk : k = key
    · subst hk
      by_cases same : query = k
      · subst same; simp [upsertEntry]
      · simp [upsertEntry, same, Ne.symm same]
    · by_cases hq : k = query
      · subst hq; simp [upsertEntry, hk]
      · have differ : (k == query) = false := by simp [hq]
        simp only [upsertEntry, hk, if_false, List.find?_cons, differ]
        exact ih

/-- Values under distinct string keys in insertion order. -/
structure Table (α : Type) where
  entries : List (String × α)
  keys_nodup : (entries.map Prod.fst).Nodup := by simp
  deriving Repr

namespace Table

variable {α : Type}

instance : Inhabited (Table α) := ⟨⟨[], by simp⟩⟩

def empty : Table α := ⟨[], by simp⟩

def keys (t : Table α) : List String := t.entries.map Prod.fst

def values (t : Table α) : List α := t.entries.map Prod.snd

def size (t : Table α) : Nat := t.entries.length

def get? (t : Table α) (key : String) : Option α :=
  (t.entries.find? (fun e => e.1 == key)).map Prod.snd

theorem mem_of_get? {t : Table α} {key : String} {value : α} (found : t.get? key = some value) :
    (key, value) ∈ t.entries := by
  unfold get? at found
  cases hit : t.entries.find? (fun e => e.1 == key) with
  | none => simp [hit] at found
  | some e =>
    simp only [hit, Option.map_some, Option.some.injEq] at found
    have member := List.mem_of_find?_eq_some hit
    have same := List.find?_some hit
    simp only [beq_iff_eq] at same
    obtain ⟨k, v⟩ := e
    simp only at same found
    subst same found
    exact member

theorem mem_keys_of_get? {t : Table α} {key : String} {value : α} (found : t.get? key = some value) :
    key ∈ t.keys :=
  List.mem_map.2 ⟨_, mem_of_get? found, rfl⟩

theorem mem_values_of_get? {t : Table α} {key : String} {value : α} (found : t.get? key = some value) :
    value ∈ t.values :=
  List.mem_map.2 ⟨_, mem_of_get? found, rfl⟩

def contains (t : Table α) (key : String) : Bool := t.keys.contains key

/-- Stores a value under a key: in place when the key is present, last otherwise. -/
def insert (t : Table α) (key : String) (value : α) : Table α where
  entries := upsertEntry key value t.entries
  keys_nodup := by
    rw [upsertEntry_keys]
    split
    · exact t.keys_nodup
    · rename_i absent
      refine List.nodup_append.2 ⟨t.keys_nodup, by simp, ?_⟩
      intro a present b single
      simp only [List.mem_singleton] at single
      subst single
      rintro rfl
      exact absent present

@[simp]
theorem get?_insert (t : Table α) (key : String) (value : α) (query : String) :
    (t.insert key value).get? query = if query = key then some value else t.get? query :=
  find?_upsertEntry key value t.entries query

theorem keys_insert (t : Table α) (key : String) (value : α) :
    (t.insert key value).keys = if key ∈ t.keys then t.keys else t.keys ++ [key] :=
  upsertEntry_keys key value t.entries

@[simp]
theorem get?_empty (query : String) : (empty : Table α).get? query = none := rfl

/-- The table of a list of entries, inserted in order. -/
def ofList (entries : List (String × α)) : Table α :=
  entries.foldl (fun t e => t.insert e.1 e.2) empty

def mapValues {β : Type} (f : α → β) (t : Table α) : Table β where
  entries := t.entries.map fun e => (e.1, f e.2)
  keys_nodup := by simpa [List.map_map, Function.comp_def] using t.keys_nodup

end Table

end NodeSchema
