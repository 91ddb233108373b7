/-!
# Tables

Finite maps from numbers, kept in ascending order of their keys. Each operation is known
through `get?`: `get?_insert`, `get?_erase` and `get?_empty` say what it does to every key,
and `keys` lists the keys that are present, in order and without repetition.
-/

namespace BehaviorTree

universe u v

variable {α : Type u} {β : Type v}

namespace Table

/-- Keys rise from entry to entry. -/
def Ascending (entries : List (Nat × α)) : Prop := entries.Pairwise fun a b => a.1 < b.1

/-- The value of a key in a list of entries. -/
def find? (key : Nat) : List (Nat × α) → Option α
  | [] => none
  | (k, a) :: rest => if k = key then some a else find? key rest

/-- Puts a value at its place, over an earlier one of the same key. -/
def put (key : Nat) (value : α) : List (Nat × α) → List (Nat × α)
  | [] => [(key, value)]
  | (k, a) :: rest =>
      if key < k then (key, value) :: (k, a) :: rest
      else if key = k then (key, value) :: rest
      else (k, a) :: put key value rest

/-- Takes the entry of a key out. -/
def drop (key : Nat) (entries : List (Nat × α)) : List (Nat × α) :=
  entries.filter fun entry => entry.1 ≠ key

/-- An entry after a key is put is the new one or was there before. -/
theorem mem_put {key : Nat} {value : α} {entries : List (Nat × α)} {entry : Nat × α}
    (h : entry ∈ put key value entries) : entry = (key, value) ∨ entry ∈ entries := by
  induction entries with
  | nil => simpa [put] using h
  | cons head rest ih =>
      obtain ⟨k, a⟩ := head
      simp only [put] at h
      split at h
      · simpa using h
      · split at h
        · simp only [List.mem_cons] at h ⊢
          rcases h with h | h
          · exact Or.inl h
          · exact Or.inr (Or.inr h)
        · simp only [List.mem_cons] at h ⊢
          rcases h with h | h
          · exact Or.inr (Or.inl h)
          · exact (ih h).imp id Or.inr

/-- Keys still rise after one is put. -/
theorem Ascending.put {entries : List (Nat × α)} (h : Ascending entries) (key : Nat) (value : α) :
    Ascending (put key value entries) := by
  induction entries with
  | nil => simp [Table.put, Ascending]
  | cons head rest ih =>
      obtain ⟨k, a⟩ := head
      rw [Ascending, List.pairwise_cons] at h
      obtain ⟨hhead, hrest⟩ := h
      simp only [Table.put]
      split
      · rename_i hlt
        refine List.pairwise_cons.2 ⟨?_, List.pairwise_cons.2 ⟨hhead, hrest⟩⟩
        intro b hb
        rcases List.mem_cons.1 hb with rfl | hb
        · exact hlt
        · exact Nat.lt_trans hlt (hhead b hb)
      · split
        · rename_i heq
          subst heq
          exact List.pairwise_cons.2 ⟨hhead, hrest⟩
        · refine List.pairwise_cons.2 ⟨?_, ih hrest⟩
          intro b hb
          rcases mem_put hb with rfl | hb
          · simp only; omega
          · exact hhead b hb

/-- Keys still rise after one is taken out. -/
theorem Ascending.drop {entries : List (Nat × α)} (h : Ascending entries) (key : Nat) :
    Ascending (drop key entries) :=
  List.Pairwise.filter _ h

/-- A key that is put has its value, and all others have theirs as before. -/
theorem find?_put (key other : Nat) (value : α) (entries : List (Nat × α)) :
    find? other (put key value entries) =
      if key = other then some value else find? other entries := by
  induction entries with
  | nil => simp [put, find?]
  | cons head rest ih =>
      obtain ⟨k, a⟩ := head
      simp only [put]
      split
      · simp [find?]
      · split
        · rename_i heq
          subst heq
          simp only [find?]
          split <;> simp
        · simp only [find?, ih]
          split
          · rename_i hne hk
            rw [if_neg (by omega)]
          · rfl

/-- A key that is taken out has no value, and all others have theirs as before. -/
theorem find?_drop (key other : Nat) (entries : List (Nat × α)) :
    find? other (drop key entries) = if key = other then none else find? other entries := by
  induction entries with
  | nil => simp [drop, find?]
  | cons head rest ih =>
      obtain ⟨k, a⟩ := head
      simp only [drop, List.filter_cons] at ih ⊢
      by_cases hk : k = key
      · subst hk
        simp only [ne_eq, not_true_eq_false, decide_false, Bool.false_eq_true, ↓reduceIte, ih,
          find?]
        split <;> simp_all
      · simp only [ne_eq, hk, not_false_eq_true, decide_true, ↓reduceIte, find?, ih]
        by_cases ho : k = other
        · subst ho
          simp [Ne.symm hk]
        · simp [ho]

end Table

/-- A finite map from numbers to `α`. -/
structure Table (α : Type u) where
  entries : List (Nat × α)
  ascending : Table.Ascending entries

namespace Table

/-- The table without entries. -/
def empty : Table α := ⟨[], List.Pairwise.nil⟩

instance : Inhabited (Table α) := ⟨empty⟩

/-- The value stored at a key. -/
def get? (table : Table α) (key : Nat) : Option α := find? key table.entries

/-- Whether a key has a value. -/
def contains (table : Table α) (key : Nat) : Bool := (table.get? key).isSome

/-- Stores a value at a key. -/
def insert (table : Table α) (key : Nat) (value : α) : Table α :=
  ⟨put key value table.entries, table.ascending.put key value⟩

/-- Removes a key. -/
def erase (table : Table α) (key : Nat) : Table α :=
  ⟨drop key table.entries, table.ascending.drop key⟩

/-- The number of keys. -/
def size (table : Table α) : Nat := table.entries.length

/-- The keys, ascending. -/
def keys (table : Table α) : List Nat := table.entries.map Prod.fst

/-- The values, in the order of their keys. -/
def values (table : Table α) : List α := table.entries.map Prod.snd

/-- An empty table has no values. -/
@[simp] theorem get?_empty (key : Nat) : (empty : Table α).get? key = none := rfl

/-- A stored value is found at its key, and every other key keeps its value. -/
@[simp] theorem get?_insert (table : Table α) (key other : Nat) (value : α) :
    (table.insert key value).get? other = if key = other then some value else table.get? other :=
  find?_put key other value table.entries

/-- A removed key has no value, and every other key keeps its value. -/
@[simp] theorem get?_erase (table : Table α) (key other : Nat) :
    (table.erase key).get? other = if key = other then none else table.get? other :=
  find?_drop key other table.entries

/-- There are as many keys as the table counts. -/
@[simp] theorem length_keys (table : Table α) : table.keys.length = table.size := by
  simp [keys, size]

/-- The keys rise strictly, so none is listed twice. -/
theorem keys_ascending (table : Table α) : table.keys.Pairwise (· < ·) := by
  simpa [keys, List.pairwise_map, Ascending] using table.ascending

/-- The listed keys are those with a value. -/
theorem mem_keys {table : Table α} {key : Nat} : key ∈ table.keys ↔ (table.get? key).isSome := by
  obtain ⟨entries, h⟩ := table
  simp only [keys, get?]
  clear h
  induction entries with
  | nil => simp [find?]
  | cons head rest ih =>
      obtain ⟨k, a⟩ := head
      simp only [List.map_cons, List.mem_cons, find?, ih]
      by_cases hk : k = key
      · simp [hk]
      · simp [hk, Ne.symm hk]

end Table

end BehaviorTree
