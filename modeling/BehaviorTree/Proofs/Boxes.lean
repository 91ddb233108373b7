import BehaviorTree.Proofs.StoreCalls

/-!
# Tables in boxes

In a store the type of a table says of which kind it is. `Store.Boxes` keeps tables of all kinds in
boxes that look alike: which kind a box is of shows only when it is opened for one, and a write that
finds a box of another kind comes to nothing (`Boxes.perform_eq_none`). So here it matters that
every box stands under its own kind (`Boxes.Labelled`).

Calls keep it so, and the boxes are then the tables of a store, call by call (`boxed_perform`). So
no call ever meets a box of another kind. `Store.store_is_map` says this beside what a store
answers.
-/

namespace BehaviorTree.Store

universe u v

variable {κ : Type u} [DecidableEq κ] {V : κ → Type v}

/-! ## Boxes -/

/-- A table of some kind. -/
abbrev Box (V : κ → Type v) := (kind : κ) × Table (V kind)

/-- The table in a box, if the box is of the kind that is asked for. -/
def Box.open? (kind : κ) (box : Box V) : Option (Table (V kind)) :=
  if h : box.1 = kind then some (h ▸ box.2) else none

/-- A box opens for its own kind. -/
theorem Box.open?_self (kind : κ) (table : Table (V kind)) :
    Box.open? kind ⟨kind, table⟩ = some table := dif_pos rfl

/-- A box stays shut for every other kind, and for no other reason. -/
theorem Box.open?_eq_none {kind : κ} {box : Box V} : box.open? kind = none ↔ box.1 ≠ kind := by
  unfold open?
  split <;> simp_all

/-- Boxes, each under a kind. -/
abbrev Boxes (V : κ → Type v) := List (κ × Box V)

namespace Boxes

/-- The box under a kind. -/
def box? (kind : κ) : Boxes V → Option (Box V)
  | [] => none
  | (other, box) :: rest => if other = kind then some box else box? kind rest

/-- Puts a box in the place of the one under a kind, or last. -/
def put (kind : κ) (box : Box V) : Boxes V → Boxes V
  | [] => [(kind, box)]
  | (other, held) :: rest =>
      if other = kind then (kind, box) :: rest else (other, held) :: put kind box rest

/-- The table under a kind, if there is a box of the kind. -/
def table? (boxes : Boxes V) (kind : κ) : Option (Table (V kind)) :=
  (boxes.box? kind).bind (Box.open? kind)

/-- The table to write to: a new one if there is no box under the kind, and none if the box there is
of another kind. -/
def writable? (boxes : Boxes V) (kind : κ) : Option (Table (V kind)) :=
  match boxes.box? kind with
  | none => some Table.empty
  | some box => box.open? kind

/-- The answer to a call and the boxes afterwards, unless a write finds a box of another kind. -/
def perform (boxes : Boxes V) : Call V → Option (Answer V × Boxes V)
  | .set kind key value => (boxes.writable? kind).map fun table =>
      (.value kind (table.get? key), boxes.put kind ⟨kind, table.insert key value⟩)
  | .modify kind key default step => (boxes.writable? kind).map fun table =>
      (.value kind (some ((table.get? key).getD default)),
        boxes.put kind ⟨kind, table.insert key (step ((table.get? key).getD default))⟩)
  | .update kind key step => some <|
      match boxes.table? kind with
      | none => (.value kind none, boxes)
      | some table =>
          match table.get? key with
          | none => (.value kind none, boxes)
          | some found =>
              (.value kind (some found), boxes.put kind ⟨kind, table.insert key (step found)⟩)
  | .remove kind key => some <|
      match boxes.table? kind with
      | none => (.value kind none, boxes)
      | some table =>
          (.value kind (table.get? key), boxes.put kind ⟨kind, table.erase key⟩)
  | .get kind key default =>
      let found := (boxes.table? kind).bind fun table => table.get? key
      some (.value kind (some (found.getD default)), boxes)
  | .find kind key =>
      some (.value kind ((boxes.table? kind).bind fun table => table.get? key), boxes)
  | .contains kind key =>
      some (.truth ((boxes.table? kind).any fun table => table.contains key), boxes)
  | .size kind => some (.number (((boxes.table? kind).map Table.size).getD 0), boxes)
  | .tableCount => some (.number boxes.length, boxes)
  | .clear => some (.done, [])

/-- The boxes after calls, unless a write has found a box of another kind. -/
def after (boxes : Boxes V) (calls : List (Call V)) : Option (Boxes V) :=
  calls.foldlM (fun boxes call => (boxes.perform call).map Prod.snd) boxes

/-- A call comes to nothing just in case it writes under a kind where there is a box of another
kind. -/
theorem perform_eq_none {boxes : Boxes V} {call : Call V} :
    boxes.perform call = none ↔
      ∃ kind box, call.written? = some kind ∧ boxes.box? kind = some box ∧ box.1 ≠ kind := by
  have hwritable (kind : κ) : boxes.writable? kind = none ↔
      ∃ box, boxes.box? kind = some box ∧ box.1 ≠ kind := by
    unfold writable?
    cases boxes.box? kind with
    | none => simp
    | some box => simp [Box.open?_eq_none]
  cases call with
  | set kind key value => simp [perform, Call.written?, hwritable]
  | modify kind key default step => simp [perform, Call.written?, hwritable]
  | get | find | contains | update | remove | size | tableCount | clear =>
      simp [perform, Call.written?]

/-- Every box is of the kind under which it stands. -/
def Labelled (boxes : Boxes V) : Prop := ∀ entry ∈ boxes, entry.2.1 = entry.1

end Boxes

/-! ## The tables of a store in boxes -/

/-- The tables of a store, each in a box under its kind. -/
def boxed (store : Store κ V) : Boxes V := store.tables.map fun table => (table.1, table)

/-- The tables of a store stand in boxes of their own kinds. -/
theorem boxed_labelled (store : Store κ V) : store.boxed.Labelled := by
  intro entry hentry
  obtain ⟨table, -, rfl⟩ := List.mem_map.1 hentry
  rfl

/-- The box under a kind has the table of that kind. -/
theorem box?_boxed (store : Store κ V) (kind : κ) :
    store.boxed.box? kind = (store.table? kind).map fun table => ⟨kind, table⟩ := by
  obtain ⟨tables, hdistinct⟩ := store
  simp only [boxed, table?]
  clear hdistinct
  induction tables with
  | nil => rfl
  | cons head rest ih =>
      obtain ⟨other, table⟩ := head
      rw [List.map_cons, Boxes.box?, find?]
      by_cases h : other = kind
      · subst h
        simp
      · simp [h, ih]

/-- With the tables of a store in boxes the table of a kind is found as in the store. -/
theorem table?_boxed (store : Store κ V) (kind : κ) :
    store.boxed.table? kind = store.table? kind := by
  rw [Boxes.table?, box?_boxed]
  cases store.table? kind with
  | none => rfl
  | some table => exact Box.open?_self kind table

/-- With the tables of a store in boxes every kind can be written to. -/
theorem writable?_boxed (store : Store κ V) (kind : κ) :
    store.boxed.writable? kind = some (store.table kind) := by
  rw [Boxes.writable?, box?_boxed, table]
  cases store.table? kind with
  | none => rfl
  | some table => exact Box.open?_self kind table

/-- A box that is put in place is a table that is put in place. -/
theorem put_boxed (store : Store κ V) (kind : κ) (table : Table (V kind)) :
    store.boxed.put kind ⟨kind, table⟩ = (store.setTable kind table).boxed := by
  obtain ⟨tables, hdistinct⟩ := store
  simp only [boxed, setTable]
  clear hdistinct
  induction tables with
  | nil => rfl
  | cons head rest ih =>
      obtain ⟨other, held⟩ := head
      rw [List.map_cons, Boxes.put, put]
      split
      · rfl
      · rw [ih, List.map_cons]

/-- A call does the same with boxes as with the store whose tables they hold. -/
theorem boxed_perform (store : Store κ V) (call : Call V) :
    store.boxed.perform call = some ((store.perform call).1, (store.perform call).2.boxed) := by
  cases call with
  | set kind key value =>
      rw [Boxes.perform, writable?_boxed, Option.map_some, put_boxed]
      rfl
  | modify kind key default step =>
      rw [Boxes.perform, writable?_boxed, Option.map_some, put_boxed]
      rfl
  -- A box is opened once for the read and the write; the store looks its table up twice.
  | update kind key step =>
      rw [Boxes.perform, table?_boxed, perform, update, get?_eq_bind]
      cases htable : store.table? kind with
      | none => rfl
      | some table =>
          have hset (value : V kind) :
              store.set kind key value = store.setTable kind (table.insert key value) := by
            rw [set, Store.table, htable, Option.getD_some]
          rw [Option.bind_some]
          cases hfound : table.get? key with
          | none => simp only [hfound]
          | some found => simp only [hfound, put_boxed, hset]
  | remove kind key =>
      rw [Boxes.perform, table?_boxed, perform, remove, get?_eq_bind]
      cases store.table? kind with
      | none => rfl
      | some table => simp only [put_boxed, Option.bind_some]
  | get kind key default =>
      rw [Boxes.perform, table?_boxed, perform, getD, get?_eq_bind]
  | find kind key =>
      rw [Boxes.perform, table?_boxed, perform, get?_eq_bind]
  | contains kind key =>
      rw [Boxes.perform, table?_boxed, perform, contains, get?_eq_bind]
      cases store.table? kind <;> rfl
  | size kind =>
      rw [Boxes.perform, table?_boxed, perform, size, table]
      cases store.table? kind <;> rfl
  | tableCount => simp [Boxes.perform, perform, boxed, tableCount]
  | clear => rfl

/-- Calls on the boxes of a store never meet a box of another kind, and leave the boxes of the store
that they leave. -/
theorem boxed_after (store : Store κ V) (calls : List (Call V)) :
    store.boxed.after calls = some (store.after calls).boxed := by
  induction calls generalizing store with
  | nil => rfl
  | cons call rest ih =>
      rw [Boxes.after, List.foldlM_cons, boxed_perform, Option.map_some]
      exact ih (store.perform call).2

/-! ## A store is a map -/

/-- What can be said of the store that calls have left. -/
structure IsMap (calls : List (Call V)) (store : Store κ V) : Prop where
  /-- Every answer is that of one map from pairs of a kind and a key. -/
  answers : ∀ call, (store.perform call).1 = reply calls call
  /-- A call leaves all pairs but its own alone, unless it clears everything. -/
  apart : ∀ (call : Call V) (kind : κ) (key : Nat), call.isClear = false →
    call.place? ≠ some (kind, key) →
      (store.perform call).2.get? kind key = store.get? kind key
  /-- To ask changes nothing. -/
  asked : ∀ call : Call V, call.asks = true → (store.perform call).2 = store
  /-- To remove or to update what is not there changes nothing. -/
  missing : ∀ (kind : κ) (key : Nat), store.get? kind key = none →
    (store.perform (.remove kind key)).2 = store ∧
      ∀ step, (store.perform (.update kind key step)).2 = store
  /-- A default comes in only where there is no value. -/
  found : ∀ (kind : κ) (key : Nat) (value default : V kind) (step : V kind → V kind),
    store.get? kind key = some value →
      store.perform (.modify kind key default step) =
        (.value kind (some value), store.set kind key (step value))
  /-- To remove a value makes no table and drops none. -/
  removed : ∀ (kind : κ) (key : Nat),
    (store.perform (.remove kind key)).2.tableCount = store.tableCount
  /-- With tables in boxes the same calls never meet a box of another kind, and neither does the
  next one, which gets the same answer. -/
  boxes : ∃ boxes : Boxes V, Boxes.after [] calls = some boxes ∧ boxes.Labelled ∧
    ∀ call, (boxes.perform call).map Prod.fst = some (reply calls call)

/-- A call that does not clear everything leaves every pair but its own alone. -/
theorem get?_perform_apart {store : Store κ V} {call : Call V} {kind : κ} {key : Nat}
    (hclear : call.isClear = false) (hplace : call.place? ≠ some (kind, key)) :
    (store.perform call).2.get? kind key = store.get? kind key := by
  rw [get?_perform]
  cases call with
  | set | update | modify | remove =>
      exact Entries.assign_of_ne fun heq => hplace (congrArg some heq)
  | clear => exact nomatch hclear
  | get | find | contains | size | tableCount => rfl

/-- A continuation store is a map from pairs of a kind and a key, whatever calls have come. Each
answer is told by the calls before it, down to the number of tables, which is the number of kinds
written since the store was last cleared. A call touches its own pair alone, asking makes nothing,
and no call could meet a table of another kind than its own. -/
theorem store_is_map (calls : List (Call V)) : IsMap calls (empty.after calls : Store κ V) where
  answers := answer_after calls
  apart _ _ _ := get?_perform_apart
  asked call h := by cases call <;> first | rfl | exact nomatch h
  missing kind key h := ⟨remove_of_none h, update_of_none h⟩
  found kind key value default step h := by simp only [perform, modify, getD, h, Option.getD_some]
  removed kind key := by
    rw [← length_kinds, ← length_kinds, perform, kinds_remove]
  boxes := by
    refine ⟨(empty.after calls).boxed, boxed_after empty calls, boxed_labelled _, fun call => ?_⟩
    rw [boxed_perform, Option.map_some, answer_after]

end BehaviorTree.Store
