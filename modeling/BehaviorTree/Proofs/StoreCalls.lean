import BehaviorTree.Store
import Mathlib.Data.Finset.Card
import Mathlib.Data.List.DropRight
import Mathlib.Data.Set.Card

/-!
# Calls on a continuation store

A store is called in ten ways. What it holds after any calls is one partial map from pairs of a kind
and a key (`Store.Entries`), and each call changes it at its own pair alone (`Store.changed`), so
what a call answers can be told from the calls before it, with no word of tables
(`Store.reply`, `Store.answer_after`).

Tables show in one answer only, that to how many there are. It is the number of kinds that were
written since the store was last cleared (`Store.writtenKinds`).
-/

namespace BehaviorTree

/-- To take out a key that is not there leaves a table as it was. -/
theorem Table.erase_of_none {α : Type*} {table : Table α} {key : Nat}
    (h : table.get? key = none) : table.erase key = table := by
  have hkey : key ∉ table.keys := fun hmem => by simpa [h] using mem_keys.1 hmem
  have hdrop : drop key table.entries = table.entries :=
    List.filter_eq_self.2 fun entry hentry =>
      decide_eq_true fun heq => hkey (heq ▸ List.mem_map_of_mem hentry)
  simp only [erase, hdrop]

namespace Store

universe u v

variable {κ : Type u} [DecidableEq κ] {V : κ → Type v}

/-! ## Calls and answers -/

/-- A call of a store. What stands for a missing value comes with the call, and so does what is done
to a value that is found or made. -/
inductive Call (V : κ → Type v) where
  | set (kind : κ) (key : Nat) (value : V kind)
  | get (kind : κ) (key : Nat) (default : V kind)
  | find (kind : κ) (key : Nat)
  | contains (kind : κ) (key : Nat)
  | update (kind : κ) (key : Nat) (step : V kind → V kind)
  | modify (kind : κ) (key : Nat) (default : V kind) (step : V kind → V kind)
  | remove (kind : κ) (key : Nat)
  | size (kind : κ)
  | tableCount
  | clear

/-- What a call answers. A call that writes answers what was there before. -/
inductive Answer (V : κ → Type v) where
  | value (kind : κ) (found : Option (V kind))
  | truth (holds : Bool)
  | number (count : Nat)
  | done

/-- The answer to a call, and the store afterwards. -/
def perform (store : Store κ V) : Call V → Answer V × Store κ V
  | .set kind key value => (.value kind (store.get? kind key), store.set kind key value)
  | .get kind key default => (.value kind (some (store.getD kind key default)), store)
  | .find kind key => (.value kind (store.get? kind key), store)
  | .contains kind key => (.truth (store.contains kind key), store)
  | .update kind key step => (.value kind (store.get? kind key), store.update kind key step)
  | .modify kind key default step =>
      (.value kind (some (store.getD kind key default)), store.modify kind key default step)
  | .remove kind key => (.value kind (store.get? kind key), store.remove kind key)
  | .size kind => (.number (store.size kind), store)
  | .tableCount => (.number store.tableCount, store)
  | .clear => (.done, empty)

/-- The store after calls. -/
def after (store : Store κ V) (calls : List (Call V)) : Store κ V :=
  calls.foldl (fun store call => (store.perform call).2) store

namespace Call

/-- The pair that a call is about. -/
def place? : Call V → Option (κ × Nat)
  | set kind key _ | get kind key _ | find kind key | contains kind key | update kind key _
  | modify kind key _ _ | remove kind key => some (kind, key)
  | size _ | tableCount | clear => none

/-- The kind that a call writes even if there is nothing of it. -/
def written? : Call V → Option κ
  | set kind _ _ | modify kind _ _ _ => some kind
  | get _ _ _ | find _ _ | contains _ _ | update _ _ _ | remove _ _ | size _ | tableCount
  | clear => none

def isClear : Call V → Bool
  | clear => true
  | _ => false

/-- Whether a call only asks. -/
def asks : Call V → Bool
  | get _ _ _ | find _ _ | contains _ _ | size _ | tableCount => true
  | set _ _ _ | update _ _ _ | modify _ _ _ _ | remove _ _ | clear => false

end Call

/-! ## One map -/

/-- A partial map from pairs of a kind and a key. -/
abbrev Entries (V : κ → Type v) := (kind : κ) → Nat → Option (V kind)

/-- A map with another value at one pair, or with none there. -/
def Entries.assign (entries : Entries V) (kind : κ) (key : Nat) (value : Option (V kind)) :
    Entries V :=
  Function.update entries kind (Function.update (entries kind) key value)

/-- The map that a call leaves. -/
def changed (entries : Entries V) : Call V → Entries V
  | .set kind key value => entries.assign kind key (some value)
  | .update kind key step => entries.assign kind key ((entries kind key).map step)
  | .modify kind key default step =>
      entries.assign kind key (some (step ((entries kind key).getD default)))
  | .remove kind key => entries.assign kind key none
  | .clear => fun _ _ => none
  | .get _ _ _ | .find _ _ | .contains _ _ | .size _ | .tableCount => entries

/-- The map that calls leave, from nothing. -/
def entriesAfter (calls : List (Call V)) : Entries V := calls.foldl changed fun _ _ => none

/-- The kinds that were written since the last time that everything was cleared. -/
def writtenKinds (calls : List (Call V)) : Finset κ :=
  ((calls.rtakeWhile fun call => !call.isClear).filterMap Call.written?).toFinset

/-- What a call answers after calls, by what was written. -/
noncomputable def reply (calls : List (Call V)) : Call V → Answer V
  | .set kind key _ | .find kind key | .update kind key _ | .remove kind key =>
      .value kind (entriesAfter calls kind key)
  | .get kind key default | .modify kind key default _ =>
      .value kind (some ((entriesAfter calls kind key).getD default))
  | .contains kind key => .truth (entriesAfter calls kind key).isSome
  | .size kind => .number {key | (entriesAfter calls kind key).isSome}.ncard
  | .tableCount => .number (writtenKinds calls).card
  | .clear => .done

variable {store : Store κ V}

/-! ## What a call changes -/

/-- A map that differs from another at one pair at most. -/
theorem Entries.eq_assign {entries next : Entries V} {kind : κ} {key : Nat}
    {value : Option (V kind)} (hself : next kind key = value)
    (hkey : ∀ other, key ≠ other → next kind other = entries kind other)
    (hkind : ∀ other, kind ≠ other → ∀ place, next other place = entries other place) :
    next = entries.assign kind key value := by
  funext other place
  by_cases hother : kind = other
  · subst hother
    rw [assign, Function.update_self]
    by_cases hplace : key = place
    · subst hplace
      rw [Function.update_self, hself]
    · rw [Function.update_of_ne (Ne.symm hplace), hkey place hplace]
  · rw [assign, Function.update_of_ne (Ne.symm hother), hkind other hother]

/-- An assignment at one pair leaves all others alone. -/
theorem Entries.assign_of_ne {entries : Entries V} {kind other : κ} {key place : Nat}
    {value : Option (V kind)} (h : (kind, key) ≠ (other, place)) :
    entries.assign kind key value other place = entries other place := by
  by_cases hother : kind = other
  · subst hother
    have hplace : place ≠ key := fun heq => h (heq ▸ rfl)
    rw [assign, Function.update_self, Function.update_of_ne hplace]
  · rw [assign, Function.update_of_ne (Ne.symm hother)]

/-- To set a value is an assignment at its pair. -/
theorem get?_set (kind : κ) (key : Nat) (value : V kind) :
    (store.set kind key value).get? = Entries.assign store.get? kind key (some value) :=
  Entries.eq_assign (get?_set_self store kind key value)
    (fun _ h => get?_set_of_key_ne store kind h value)
    (fun _ h place => get?_set_of_kind_ne store h key value place)

/-- To remove a value is the assignment of nothing at its pair. -/
theorem get?_remove (kind : κ) (key : Nat) :
    (store.remove kind key).get? = Entries.assign store.get? kind key none :=
  Entries.eq_assign (get?_remove_self store kind key)
    (fun _ h => get?_remove_of_key_ne store kind h)
    (fun _ h place => get?_remove_of_kind_ne store h key place)

/-- To update a value that is missing leaves a store as it was. -/
theorem update_of_none {kind : κ} {key : Nat} (h : store.get? kind key = none)
    (step : V kind → V kind) : store.update kind key step = store := by
  rw [update, h]

/-- To update a value that is there is to set what becomes of it. -/
theorem update_of_some {kind : κ} {key : Nat} {value : V kind}
    (h : store.get? kind key = some value) (step : V kind → V kind) :
    store.update kind key step = store.set kind key (step value) := by
  rw [update, h]

/-- A value is found in the table of its kind, if there is one. -/
theorem get?_eq_bind (store : Store κ V) (kind : κ) (key : Nat) :
    store.get? kind key = (store.table? kind).bind fun table => table.get? key := by
  rw [get?, table]
  cases store.table? kind <;> rfl

/-- A table that is put where it stands already. -/
theorem put_find? {kind : κ} {table : Table (V kind)} {tables : List ((k : κ) × Table (V k))}
    (h : find? kind tables = some table) : put kind table tables = tables := by
  induction tables with
  | nil => exact nomatch h
  | cons head rest ih =>
      obtain ⟨other, held⟩ := head
      rw [find?] at h
      rw [put]
      split
      · rename_i hother
        subst hother
        rw [dif_pos rfl] at h
        rw [← Option.some.inj h]
      · rename_i hother
        rw [dif_neg hother] at h
        rw [ih h]

/-- To take out what is not there changes nothing. -/
theorem remove_of_none {kind : κ} {key : Nat} (h : store.get? kind key = none) :
    store.remove kind key = store := by
  rw [get?_eq_bind] at h
  unfold remove
  split
  · rfl
  · rename_i table htable
    rw [htable, Option.bind_some] at h
    rw [Table.erase_of_none h]
    obtain ⟨tables, hdistinct⟩ := store
    simp only [setTable, put_find? htable]

/-- What a store holds after a call. -/
theorem get?_perform (store : Store κ V) (call : Call V) :
    (store.perform call).2.get? = changed store.get? call := by
  cases call with
  | set kind key value => exact get?_set kind key value
  | modify kind key default step => exact get?_set kind key _
  | remove kind key => exact get?_remove kind key
  | update kind key step =>
      show (store.update kind key step).get? =
        Entries.assign store.get? kind key ((store.get? kind key).map step)
      cases h : store.get? kind key with
      | none =>
          rw [update_of_none h]
          exact Entries.eq_assign h (fun _ _ => rfl) fun _ _ _ => rfl
      | some value =>
          rw [update_of_some h, get?_set]
          rfl
  | clear => rfl
  | get | find | contains | size | tableCount => rfl

/-- A store holds the map that the calls so far leave. -/
theorem get?_after (calls : List (Call V)) :
    (empty.after calls : Store κ V).get? = entriesAfter calls :=
  (List.foldl_hom Store.get? fun store call => (get?_perform store call).symm).symm

/-! ## Tables -/

/-- A kind with a value has a table. -/
theorem mem_kinds_of_get? {kind : κ} {key : Nat} {value : V kind}
    (h : store.get? kind key = some value) : kind ∈ store.kinds := by
  rw [mem_kinds, Option.isSome_iff_ne_none]
  intro hnone
  exact nomatch (get?_eq_none_of_table? hnone key).symm.trans h

/-- A call that writes adds its kind, clearing drops all, and nothing else makes or drops a
table. -/
theorem mem_kinds_perform {call : Call V} {kind : κ} :
    kind ∈ (store.perform call).2.kinds ↔
      call.isClear = false ∧ kind ∈ store.kinds ∨ call.written? = some kind := by
  have hset (written : κ) (key : Nat) (value : V written) :
      kind ∈ (store.set written key value).kinds ↔ kind ∈ store.kinds ∨ written = kind := by
    rw [kinds_set]
    split
    · rename_i hmem
      exact ⟨Or.inl, fun h => h.elim id fun heq => heq ▸ hmem⟩
    · rw [List.mem_append, List.mem_singleton, eq_comm]
  cases call with
  | set written key value =>
      simpa [perform, Call.isClear, Call.written?] using hset written key value
  | modify written key default step =>
      simpa [perform, modify, Call.isClear, Call.written?] using
        hset written key (step (store.getD written key default))
  | update written key step =>
      simp only [perform, Call.isClear, Call.written?, true_and, reduceCtorEq, or_false]
      cases h : store.get? written key with
      | none => rw [update_of_none h]
      | some value =>
          rw [update_of_some h, hset]
          exact or_iff_left_of_imp fun heq => heq ▸ mem_kinds_of_get? h
  | remove written key => simp [perform, Call.isClear, Call.written?]
  | clear => simp [perform, Call.isClear, Call.written?, kinds, empty]
  | get | find | contains | size | tableCount => simp [perform, Call.isClear, Call.written?]

/-- A kind counts as written after a call that writes it, or if it did before and the call does not
clear. -/
theorem mem_written_kinds_concat {calls : List (Call V)} {call : Call V} {kind : κ} :
    kind ∈ writtenKinds (calls ++ [call]) ↔
      call.isClear = false ∧ kind ∈ writtenKinds calls ∨ call.written? = some kind := by
  unfold writtenKinds
  cases hclear : call.isClear with
  | true =>
      have hcall : call = .clear := by
        cases call <;> first | rfl | exact nomatch hclear
      rw [List.rtakeWhile_concat_neg _ _ _ (by simp [hclear]), hcall]
      simp [Call.written?]
  | false =>
      rw [List.rtakeWhile_concat_pos _ _ _ (by simp [hclear]), List.filterMap_append]
      cases hwritten : call.written? with
      | none => simp [hwritten]
      | some written => simp [hwritten, or_comm, eq_comm (a := kind)]

/-- The kinds with a table are those that were written since all was cleared. -/
theorem mem_kinds_after {calls : List (Call V)} {kind : κ} :
    kind ∈ (empty.after calls : Store κ V).kinds ↔ kind ∈ writtenKinds calls := by
  induction calls using List.reverseRecOn with
  | nil => simp [after, kinds, empty, writtenKinds]
  | append_singleton calls call ih =>
      rw [after, List.foldl_append, List.foldl_cons, List.foldl_nil, ← after, mem_kinds_perform, ih,
        mem_written_kinds_concat]

/-- There are as many tables as kinds that were written since everything was last cleared. -/
theorem table_count_after (calls : List (Call V)) :
    (empty.after calls : Store κ V).tableCount = (writtenKinds calls).card := by
  have hkinds : (empty.after calls : Store κ V).kinds.toFinset = writtenKinds calls := by
    ext kind
    rw [List.mem_toFinset, mem_kinds_after]
  rw [← length_kinds, ← hkinds, List.toFinset_card_of_nodup (kinds_nodup _)]

/-- The size of a kind is the number of its keys. -/
theorem size_eq_ncard (store : Store κ V) (kind : κ) :
    store.size kind = {key | (store.get? kind key).isSome}.ncard := by
  have hkeys : {key | (store.get? kind key).isSome} =
      ((store.table kind).keys.toFinset : Set Nat) := by
    ext key
    rw [Finset.mem_coe, List.mem_toFinset, Table.mem_keys]
    exact Iff.rfl
  have hnodup : (store.table kind).keys.Nodup :=
    (store.table kind).keys_ascending.imp fun hlt => Nat.ne_of_lt hlt
  rw [hkeys, Set.ncard_coe_finset, List.toFinset_card_of_nodup hnodup, Table.length_keys, size]

/-- Every answer is what the calls before it make it. -/
theorem answer_after (calls : List (Call V)) (call : Call V) :
    ((empty.after calls : Store κ V).perform call).1 = reply calls call := by
  cases call with
  | tableCount => exact congrArg Answer.number (table_count_after calls)
  | size kind =>
      rw [perform, size_eq_ncard, get?_after]
      rfl
  | clear => rfl
  | set | get | find | contains | update | modify | remove =>
      simp only [perform, getD, contains, get?_after, reply]

end Store

end BehaviorTree
