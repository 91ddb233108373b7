import BehaviorTree.Agent.Evaluate
import Mathlib.Data.List.Nodup

/-!
# Filters that only narrow

The four filters that the engine provides take entities out of a selection. None adds, copies or
moves one, and none touches anything else of the agent, so a chain of them leaves a part of the
selection in its order (`Filter.run_all_narrowing`, `Narrowing.apply_all_sublist`).

`Selection.firsts` says by places what `Selection.unique` computes with the entities seen so far.
That the two agree (`Selection.unique_eq_firsts`) is an induction over the rest of a selection, of
which the part before is left open.
-/

namespace BehaviorTree

variable {G : Game}

/-! ## First occurrences -/

namespace Selection

/-- The entities at the places where they occur first, in order. -/
def firsts (selection : List EntityId) : List EntityId :=
  (selection.zipIdx.filter fun entry => entry.1 ∉ selection.take entry.2).map Prod.fst

variable {seen other selection : List EntityId} {entity : EntityId}

/-- Behind a part of a selection, what was seen is what occurs in that part. -/
theorem drop_seen_behind (before rest : List EntityId)
    (hseen : ∀ entity, entity ∈ seen ↔ entity ∈ before) :
    dropSeen seen rest = ((rest.zipIdx before.length).filter fun entry =>
      entry.1 ∉ (before ++ rest).take entry.2).map Prod.fst := by
  induction rest generalizing seen before with
  | nil => rfl
  | cons head tail ih =>
      have hwhole : before ++ head :: tail = (before ++ [head]) ++ tail := by simp
      have hlength : (before ++ [head]).length = before.length + 1 := by simp
      rw [dropSeen, List.zipIdx_cons, List.filter_cons, List.take_left]
      by_cases hhead : head ∈ seen
      · have hnow : ∀ entity, entity ∈ seen ↔ entity ∈ before ++ [head] := by
          intro entity
          rw [List.mem_append, List.mem_singleton, ← hseen]
          exact ⟨Or.inl, fun h => h.elim id fun heq => heq ▸ hhead⟩
        rw [if_pos hhead, if_neg (by simpa using (hseen head).1 hhead), ih _ hnow, hlength,
          ← hwhole]
      · have hnow : ∀ entity, entity ∈ head :: seen ↔ entity ∈ before ++ [head] := by
          intro entity
          rw [List.mem_append, List.mem_singleton, List.mem_cons, hseen, or_comm]
        rw [if_neg hhead, if_pos (by simpa using fun h => hhead ((hseen head).2 h)), ih _ hnow,
          hlength, ← hwhole, List.map_cons]

/-- What is kept are the first occurrences. -/
theorem unique_eq_firsts (selection : List EntityId) : unique selection = firsts selection :=
  drop_seen_behind [] selection fun _ => Iff.rfl

/-- The first occurrences are part of a selection, in its order. -/
theorem firsts_sublist (selection : List EntityId) : (firsts selection).Sublist selection := by
  have hplaces := (List.filter_sublist (l := selection.zipIdx)
    (p := fun entry => entry.1 ∉ selection.take entry.2)).map Prod.fst
  rwa [List.zipIdx_map_fst] at hplaces

/-- What is dropped was seen before, outside or in the selection itself. -/
theorem mem_drop_seen :
    entity ∈ dropSeen seen selection ↔ entity ∈ selection ∧ entity ∉ seen := by
  induction selection generalizing seen with
  | nil => simp [dropSeen]
  | cons head rest ih =>
      rw [dropSeen]
      split
      · rename_i hhead
        rw [ih, List.mem_cons]
        refine ⟨fun h => ⟨Or.inr h.1, h.2⟩, fun h => ⟨h.1.resolve_left ?_, h.2⟩⟩
        rintro rfl
        exact h.2 hhead
      · rename_i hhead
        rw [List.mem_cons, List.mem_cons, ih, List.mem_cons, not_or]
        by_cases heq : entity = head
        · simp [heq, hhead]
        · simp [heq]

/-- Without repetitions a selection has the same entities. -/
theorem mem_unique : entity ∈ unique selection ↔ entity ∈ selection := by
  simp [unique, mem_drop_seen]

/-- No entity occurs twice in what is left without repetitions. -/
theorem drop_seen_nodup (seen selection : List EntityId) : (dropSeen seen selection).Nodup := by
  induction selection generalizing seen with
  | nil => exact List.nodup_nil
  | cons head rest ih =>
      rw [dropSeen]
      split
      · exact ih seen
      · refine List.nodup_cons.2 ⟨fun hmem => ?_, ih (head :: seen)⟩
        exact (mem_drop_seen.1 hmem).2 List.mem_cons_self

/-- Of what was seen only the entities of the selection matter. -/
theorem drop_seen_congr (h : ∀ entity ∈ selection, entity ∈ seen ↔ entity ∈ other) :
    dropSeen seen selection = dropSeen other selection := by
  induction selection generalizing seen other with
  | nil => rfl
  | cons head rest ih =>
      have hhead := h head List.mem_cons_self
      have hrest : ∀ entity ∈ rest, entity ∈ seen ↔ entity ∈ other :=
        fun entity hentity => h entity (List.mem_cons_of_mem head hentity)
      have hseen : ∀ entity ∈ rest, entity ∈ head :: seen ↔ entity ∈ head :: other :=
        fun entity hentity => by rw [List.mem_cons, List.mem_cons, hrest entity hentity]
      rw [dropSeen, dropSeen, ih hrest, ih hseen]
      simp only [hhead]

/-- A selection of which nothing was seen is kept if it has no repeats. -/
theorem drop_seen_of_nodup (hnodup : selection.Nodup) (h : ∀ entity ∈ selection, entity ∉ seen) :
    dropSeen seen selection = selection := by
  induction selection generalizing seen with
  | nil => rfl
  | cons head rest ih =>
      rw [List.nodup_cons] at hnodup
      rw [dropSeen, if_neg (h head List.mem_cons_self), ih hnodup.2]
      intro entity hentity hmem
      obtain rfl | hseen := List.mem_cons.1 hmem
      · exact hnodup.1 hentity
      · exact h entity (List.mem_cons_of_mem head hentity) hseen

/-- There are no repetitions left to take out a second time. -/
theorem unique_unique (selection : List EntityId) : unique (unique selection) = unique selection :=
  drop_seen_of_nodup (drop_seen_nodup [] selection) fun _ _ => List.not_mem_nil

/-- Entities may be taken out before or after the repeats. -/
theorem drop_seen_filter (seen selection : List EntityId) (keep : EntityId → Bool) :
    dropSeen seen (selection.filter keep) = (dropSeen seen selection).filter keep := by
  induction selection generalizing seen with
  | nil => rfl
  | cons head rest ih =>
      rw [List.filter_cons, dropSeen]
      cases hkeep : keep head with
      | true =>
          rw [if_pos rfl, dropSeen, ih, ih]
          split
          · rfl
          · rw [List.filter_cons, hkeep, if_pos rfl]
      | false =>
          rw [if_neg (by simp)]
          split
          · exact ih seen
          · -- That the entity has been seen makes no difference to those that are kept.
            rw [List.filter_cons, hkeep, if_neg (by simp), ← ih]
            refine drop_seen_congr fun entity hentity => ?_
            rw [List.mem_cons, or_iff_right]
            rintro rfl
            simp [hkeep] at hentity

/-- Repetitions and an entity may be taken out in either order. -/
theorem unique_exclude (entity : EntityId) (selection : List EntityId) :
    unique (exclude entity selection) = exclude entity (unique selection) :=
  drop_seen_filter [] selection _

end Selection

/-! ## The filters of the engine -/

/-- The filters that the engine provides. -/
inductive Narrowing where
  | clear
  | unique
  | first (count : Nat)
  | exclude
  deriving DecidableEq, Repr

namespace Narrowing

/-- The filter of a kind. -/
def filter : Narrowing → Filter G
  | clear => .clear
  | unique => .unique
  | first count => .first count
  | exclude => .exclude

/-- What a filter makes of the selection of an entity's agent. -/
def apply (entity : EntityId) : Narrowing → List EntityId → List EntityId
  | clear => fun _ => []
  | unique => Selection.unique
  | first count => List.take count
  | exclude => Selection.exclude entity

/-- What filters one after another make of a selection. -/
def applyAll (entity : EntityId) (chain : List Narrowing) (selection : List EntityId) :
    List EntityId :=
  chain.foldl (fun selection narrowing => narrowing.apply entity selection) selection

/-- A filter leaves a part of the selection, in its order. -/
theorem apply_sublist (entity : EntityId) (narrowing : Narrowing) (selection : List EntityId) :
    (narrowing.apply entity selection).Sublist selection := by
  cases narrowing with
  | clear => exact List.nil_sublist selection
  | unique =>
      rw [apply, Selection.unique_eq_firsts]
      exact Selection.firsts_sublist selection
  | first count => exact List.take_sublist count selection
  | exclude => exact List.filter_sublist

/-- A chain of filters leaves a part of the selection, in its order. -/
theorem apply_all_sublist (entity : EntityId) (chain : List Narrowing)
    (selection : List EntityId) : (applyAll entity chain selection).Sublist selection := by
  induction chain generalizing selection with
  | nil => exact List.Sublist.refl selection
  | cons narrowing rest ih => exact (ih _).trans (narrowing.apply_sublist entity selection)

/-- A filter that runs twice in a row does no more than once. -/
theorem apply_apply (entity : EntityId) (narrowing : Narrowing) (selection : List EntityId) :
    narrowing.apply entity (narrowing.apply entity selection) =
      narrowing.apply entity selection := by
  cases narrowing with
  | clear => rfl
  | unique => exact Selection.unique_unique selection
  | first count => rw [apply, List.take_take, Nat.min_self]
  | exclude => simp [apply, Selection.exclude]

end Narrowing

namespace Filter

/-- Runs filters one after another. -/
def runAll (rules : Rules G) : List (Filter G) → Play G Unit
  | [] => pure ()
  | filter :: rest => do
      filter.run rules
      runAll rules rest

variable (rules : Rules G) (agent : Agent G)

/-- A filter of the engine changes the selection and nothing else, and leaves no notes. -/
theorem run_narrowing (narrowing : Narrowing) :
    narrowing.filter.run rules agent =
      ⟨(), agent.select (narrowing.apply agent.entity), []⟩ := by
  cases narrowing <;> rfl

/-- A chain of filters applies them one after another to the selection and does nothing else. -/
theorem run_all_narrowing (chain : List Narrowing) :
    runAll rules (chain.map Narrowing.filter) agent =
      ⟨(), agent.select (Narrowing.applyAll agent.entity chain), []⟩ := by
  induction chain generalizing agent with
  | nil => rfl
  | cons narrowing rest ih =>
      rw [List.map_cons, runAll, Play.bind_apply, run_narrowing, ih]
      rfl

/-- Two chains that make the same of every selection are the same. -/
theorem run_all_eq_of_apply_all (chain other : List Narrowing)
    (h : ∀ entity selection,
      Narrowing.applyAll entity chain selection = Narrowing.applyAll entity other selection) :
    runAll rules (chain.map Narrowing.filter) = runAll rules (other.map Narrowing.filter) := by
  funext agent
  rw [run_all_narrowing, run_all_narrowing, funext (h agent.entity)]

/-- The filters of the engine only narrow. Whatever the agent, a chain of them leaves some of the
selection in its order and changes nothing else; the filter of repeats leaves the first occurrences,
each entity once and none lost. To run a filter twice is to run it once, repeats and the agent's own
entity can be dropped in either order, and of two limits the lower one counts. -/
theorem narrowing_laws :
    (∀ chain : List Narrowing,
      let outcome := runAll rules (chain.map Narrowing.filter) agent
      outcome.agent.selection.Sublist agent.selection ∧
        outcome.agent = { agent with selection := outcome.agent.selection } ∧
        outcome.notes = []) ∧
    (let kept := (unique.run rules agent).agent.selection
     kept = Selection.firsts agent.selection ∧ kept.Nodup ∧
       ∀ entity, entity ∈ kept ↔ entity ∈ agent.selection) ∧
    (∀ narrowing : Narrowing,
      runAll rules [narrowing.filter, narrowing.filter] = runAll rules [narrowing.filter]) ∧
    runAll rules [unique, exclude] = runAll rules [exclude, unique] ∧
    ∀ early late : Nat,
      runAll rules [first early, first late] = runAll rules [first (min late early)] := by
  refine ⟨fun chain => ?_, ⟨?_, ?_, fun entity => ?_⟩, fun narrowing => ?_, ?_,
    fun early late => ?_⟩
  · rw [run_all_narrowing]
    exact ⟨Narrowing.apply_all_sublist agent.entity chain agent.selection, rfl, rfl⟩
  · exact Selection.unique_eq_firsts agent.selection
  · exact Selection.drop_seen_nodup [] agent.selection
  · exact Selection.mem_unique
  · exact run_all_eq_of_apply_all rules [narrowing, narrowing] [narrowing]
      fun entity selection => narrowing.apply_apply entity selection
  · exact run_all_eq_of_apply_all rules [.unique, .exclude] [.exclude, .unique]
      fun entity selection => (Selection.unique_exclude entity selection).symm
  · exact run_all_eq_of_apply_all rules [.first early, .first late] [.first (min late early)]
      fun _ selection => List.take_take (l := selection)

end Filter

end BehaviorTree
