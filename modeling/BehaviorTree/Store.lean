import BehaviorTree.Table

/-!
# The continuation store

What an agent remembers between ticks: for each kind of value one table from keys to values
of that kind. A table comes into being at the first write of its kind and stays, also when
it is emptied, until the store is cleared.

Seen through `get?` the store is one map from pairs of a kind and a key. The statements
`get?_set`, `get?_remove` and `get?_empty` say what each write does to every such pair, and
`kinds` lists the kinds that have a table.
-/

namespace BehaviorTree

universe u v

variable {κ : Type u} [DecidableEq κ] {V : κ → Type v}

namespace Store

/-- The table of one kind. -/
def find? (kind : κ) : List ((k : κ) × Table (V k)) → Option (Table (V kind))
  | [] => none
  | ⟨k, table⟩ :: rest => if h : k = kind then some (h ▸ table) else find? kind rest

/-- Puts a table in the place of the one of its kind, or last. -/
def put (kind : κ) (table : Table (V kind)) :
    List ((k : κ) × Table (V k)) → List ((k : κ) × Table (V k))
  | [] => [⟨kind, table⟩]
  | ⟨k, other⟩ :: rest =>
      if k = kind then ⟨kind, table⟩ :: rest else ⟨k, other⟩ :: put kind table rest

/-- A table that is put is found under its kind, and all others are found as before. -/
theorem find?_put (kind other : κ) (table : Table (V kind))
    (tables : List ((k : κ) × Table (V k))) :
    find? other (put kind table tables) =
      if h : kind = other then some (h ▸ table) else find? other tables := by
  induction tables with
  | nil => simp [put, find?]
  | cons head rest ih =>
      obtain ⟨k, t⟩ := head
      simp only [put]
      split
      · rename_i hk
        subst hk
        simp only [find?]
        split <;> simp
      · simp only [find?, ih]
        split
        · rename_i hne hk
          rw [dif_neg]
          exact fun h => hne (hk.trans h.symm)
        · rfl

/-- To put a table adds its kind at the end unless it is there. -/
theorem map_fst_put (kind : κ) (table : Table (V kind)) (tables : List ((k : κ) × Table (V k))) :
    (put kind table tables).map Sigma.fst =
      if kind ∈ tables.map Sigma.fst then tables.map Sigma.fst
      else tables.map Sigma.fst ++ [kind] := by
  induction tables with
  | nil => simp [put]
  | cons head rest ih =>
      obtain ⟨k, t⟩ := head
      simp only [put]
      by_cases hk : k = kind
      · subst hk
        simp
      · rw [if_neg hk]
        simp only [List.map_cons, ih, List.mem_cons, Ne.symm hk, false_or]
        split <;> simp

end Store

/-- Tables of values, one for each kind that has been written. -/
structure Store (κ : Type u) [DecidableEq κ] (V : κ → Type v) where
  tables : List ((k : κ) × Table (V k))
  distinct : (tables.map Sigma.fst).Nodup

namespace Store

/-- The store without tables. -/
def empty : Store κ V := ⟨[], List.nodup_nil⟩

instance : Inhabited (Store κ V) := ⟨empty⟩

/-- The table of a kind, if anything of the kind has been written. -/
def table? (store : Store κ V) (kind : κ) : Option (Table (V kind)) := find? kind store.tables

/-- The table of a kind, without entries if nothing of the kind has been written. -/
def table (store : Store κ V) (kind : κ) : Table (V kind) := (store.table? kind).getD Table.empty

/-- Gives a kind a table. -/
def setTable (store : Store κ V) (kind : κ) (table : Table (V kind)) : Store κ V :=
  ⟨put kind table store.tables, by
    rw [map_fst_put]
    split
    · exact store.distinct
    · rename_i h
      refine List.nodup_append.2 ⟨store.distinct, List.pairwise_singleton _ _, ?_⟩
      intro a ha b hb hab
      rw [List.mem_singleton] at hb
      exact h (hb ▸ hab ▸ ha)⟩

/-- The value of a kind stored at a key. -/
def get? (store : Store κ V) (kind : κ) (key : Nat) : Option (V kind) :=
  (store.table kind).get? key

/-- The value of a kind stored at a key, or a default. -/
def getD (store : Store κ V) (kind : κ) (key : Nat) (default : V kind) : V kind :=
  (store.get? kind key).getD default

/-- Whether a value of a kind is stored at a key. -/
def contains (store : Store κ V) (kind : κ) (key : Nat) : Bool := (store.get? kind key).isSome

/-- Stores a value of a kind at a key. -/
def set (store : Store κ V) (kind : κ) (key : Nat) (value : V kind) : Store κ V :=
  store.setTable kind ((store.table kind).insert key value)

/-- Removes the value of a kind at a key. A kind without a table does not get one. -/
def remove (store : Store κ V) (kind : κ) (key : Nat) : Store κ V :=
  match store.table? kind with
  | none => store
  | some table => store.setTable kind (table.erase key)

/-- Changes the value of a kind at a key where there is one. -/
def update (store : Store κ V) (kind : κ) (key : Nat) (change : V kind → V kind) : Store κ V :=
  match store.get? kind key with
  | none => store
  | some value => store.set kind key (change value)

/-- Changes the value of a kind at a key, a default in the place of a missing one. -/
def modify (store : Store κ V) (kind : κ) (key : Nat) (default : V kind)
    (change : V kind → V kind) : Store κ V :=
  store.set kind key (change (store.getD kind key default))

/-- The number of values of a kind. -/
def size (store : Store κ V) (kind : κ) : Nat := (store.table kind).size

/-- The kinds with a table, in the order of their first writes. -/
def kinds (store : Store κ V) : List κ := store.tables.map Sigma.fst

/-- The number of kinds written since the store was last cleared. -/
def tableCount (store : Store κ V) : Nat := store.tables.length

/-- A kind that is given a table has it. All others keep theirs. -/
@[simp] theorem table?_set_table (store : Store κ V) (kind other : κ) (table : Table (V kind)) :
    (store.setTable kind table).table? other =
      if h : kind = other then some (h ▸ table) else store.table? other :=
  find?_put kind other table store.tables

/-- An empty store has no values. -/
@[simp] theorem get?_empty (kind : κ) (key : Nat) : (empty : Store κ V).get? kind key = none := rfl

/-- A table put in place answers for its kind alone. -/
theorem get?_set_table_self (store : Store κ V) (kind : κ) (table : Table (V kind)) (key : Nat) :
    (store.setTable kind table).get? kind key = table.get? key := by
  simp [get?, Store.table]

/-- To give a kind a table leaves the values of all others alone. -/
theorem get?_set_table_of_ne (store : Store κ V) {kind other : κ} (h : kind ≠ other)
    (table : Table (V kind)) (key : Nat) :
    (store.setTable kind table).get? other key = store.get? other key := by
  simp [get?, Store.table, h]

/-- A stored value is found under its kind and key. -/
@[simp] theorem get?_set_self (store : Store κ V) (kind : κ) (key : Nat) (value : V kind) :
    (store.set kind key value).get? kind key = some value := by
  simp [set, get?_set_table_self]

/-- Storing a value leaves every other key of its kind alone. -/
theorem get?_set_of_key_ne (store : Store κ V) (kind : κ) {key other : Nat} (h : key ≠ other)
    (value : V kind) : (store.set kind key value).get? kind other = store.get? kind other := by
  simp [set, get?_set_table_self, Table.get?_insert, h]
  rfl

/-- Storing a value leaves every other kind alone. -/
theorem get?_set_of_kind_ne (store : Store κ V) {kind other : κ} (h : kind ≠ other) (key : Nat)
    (value : V kind) (place : Nat) :
    (store.set kind key value).get? other place = store.get? other place :=
  get?_set_table_of_ne store h _ _

/-- A kind without a table has no values. -/
theorem get?_eq_none_of_table? {store : Store κ V} {kind : κ} (h : store.table? kind = none)
    (key : Nat) : store.get? kind key = none := by
  simp [get?, Store.table, h]

/-- A removed value is gone. -/
@[simp] theorem get?_remove_self (store : Store κ V) (kind : κ) (key : Nat) :
    (store.remove kind key).get? kind key = none := by
  unfold remove
  split
  · rename_i h
    exact get?_eq_none_of_table? h key
  · simp [get?_set_table_self]

/-- Removing a value leaves every other key of its kind alone. -/
theorem get?_remove_of_key_ne (store : Store κ V) (kind : κ) {key other : Nat} (h : key ≠ other) :
    (store.remove kind key).get? kind other = store.get? kind other := by
  unfold remove
  split
  · rfl
  · rename_i table htable
    simp [h, get?, Store.table, htable]

/-- Removing a value leaves every other kind alone. -/
theorem get?_remove_of_kind_ne (store : Store κ V) {kind other : κ} (h : kind ≠ other)
    (key place : Nat) : (store.remove kind key).get? other place = store.get? other place := by
  unfold remove
  split
  · rfl
  · exact get?_set_table_of_ne store h _ _

/-- A write adds its kind to those with a table. -/
theorem kinds_set (store : Store κ V) (kind : κ) (key : Nat) (value : V kind) :
    (store.set kind key value).kinds =
      if kind ∈ store.kinds then store.kinds else store.kinds ++ [kind] :=
  map_fst_put _ _ _

/-- The kinds are those that have a table. -/
theorem mem_kinds {store : Store κ V} {kind : κ} :
    kind ∈ store.kinds ↔ (store.table? kind).isSome := by
  obtain ⟨tables, hdistinct⟩ := store
  simp only [kinds, table?]
  clear hdistinct
  induction tables with
  | nil => simp [find?]
  | cons head rest ih =>
      obtain ⟨k, t⟩ := head
      simp only [List.map_cons, List.mem_cons, find?, ih]
      by_cases hk : k = kind
      · simp [hk]
      · simp [hk, Ne.symm hk]

/-- A removal neither makes nor drops a table. -/
@[simp] theorem kinds_remove (store : Store κ V) (kind : κ) (key : Nat) :
    (store.remove kind key).kinds = store.kinds := by
  unfold remove
  split
  · rfl
  · rename_i table htable
    have h : kind ∈ store.kinds := mem_kinds.2 (by simp [htable])
    simpa [setTable, kinds] using (map_fst_put kind (table.erase key) store.tables).trans (if_pos h)

/-- No kind is listed twice. -/
theorem kinds_nodup (store : Store κ V) : store.kinds.Nodup := store.distinct

/-- There are as many kinds as tables. -/
@[simp] theorem length_kinds (store : Store κ V) : store.kinds.length = store.tableCount := by
  simp [kinds, tableCount]

end Store

end BehaviorTree
