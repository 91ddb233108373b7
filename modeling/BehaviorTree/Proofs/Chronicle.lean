import BehaviorTree.Proofs.CurrentAction
import BehaviorTree.Proofs.Resumption
import BehaviorTree.Proofs.Trail

/-!
# Chronicles

The visits of a whole run (`Command.playVisits`), in the order in which they start.

Without must-complete actions a run is a row of passes through trees, and nothing in between
touches the context: that is what a `Chronicle` says. `Command.play_all_chronicle` gives the one
of a run, and all that holds of single passes is carried to runs by induction on it.
-/

namespace BehaviorTree

variable {G : Game} {rules : Rules G} {kept : NodeId → Bool} {elapsed : Nat}

/-! ## The visits of a run -/

/-- What an update comes to. -/
def Agent.updateVisits (rules : Rules G) (kept : NodeId → Bool) (elapsed : Nat)
    (agent : Agent G) : List (Visit G) :=
  if agent.paused then []
  else match agent.behavior with
    | none => []
    | some tree =>
        match agent.pressingAction? kept with
        | none => tree.toNode.visits rules (tree.inUse kept) elapsed agent.nextTick
        | some action =>
            let alone := action.execute rules (tree.inUse kept) elapsed agent.nextTick
            action.visits rules (tree.inUse kept) elapsed agent.nextTick ++
              if alone.value.isRunning then []
              else tree.toNode.visits rules (tree.inUse kept) elapsed
                (alone.agent.withWaiting action.id alone.value)

namespace Command

/-- What a command comes to: only updates execute anything. -/
def visits (rules : Rules G) : Command G → Agent G → List (Visit G)
  | update kept elapsed, agent => agent.updateVisits rules kept elapsed
  | setBehavior _ _, _ | takeBehavior, _ | setSelection _, _ | setPaused _, _ => []

/-- What commands come to, one after the other. -/
def playVisits (rules : Rules G) : List (Command G) → Agent G → List (Visit G)
  | [], _ => []
  | command :: rest, agent =>
      command.visits rules agent ++ playVisits rules rest (command.play rules agent).agent

end Command

/-- Reports do not tell of executions. -/
theorem executions_eq_nil_of_reports {notes : List Note} (h : ∀ note ∈ notes, note.IsReport) :
    executions notes = [] := by
  refine List.filterMap_eq_nil_iff.2 fun note hnote => ?_
  have hreport := h note hnote
  cases note with
  | reported => rfl
  | entered | acted | tested | executed => exact hreport.elim

/-! ## Passes in a row -/

/-- Passes through trees of a forest, with nothing in between that touches the context. -/
inductive Chronicle (rules : Rules G) (forest : List (Tree G)) :
    Agent G → List (Visit G) → Agent G → Prop where
  | rest {before after : Agent G} (hcontext : after.context = before.context) :
      Chronicle rules forest before [] after
  | pass {before start after : Agent G} {later : List (Visit G)} {tree : Tree G}
      (htree : tree ∈ forest) (kept : NodeId → Bool) (elapsed : Nat)
      (hcontext : start.context = before.context) (hnone : start.NoneWaiting)
      (hlater : Chronicle rules forest (tree.toNode.execute rules kept elapsed start).agent
        later after) :
      Chronicle rules forest before (tree.toNode.visits rules kept elapsed start ++ later) after

/-- No leaf of a forest is must-complete. -/
def Plain (forest : List (Tree G)) : Prop :=
  ∀ node ∈ forestNodes forest, node.mustComplete = false

variable {forest : List (Tree G)}

namespace Chronicle

variable {before middle after : Agent G} {visits : List (Visit G)}

/-- What is done before a chronicle does not matter to it if it does not touch the context. -/
theorem move (h : Chronicle rules forest middle visits after)
    (hcontext : middle.context = before.context) :
    Chronicle rules forest before visits after := by
  cases h with
  | rest hlast => exact .rest (hlast.trans hcontext)
  | pass htree kept elapsed hstart hnone hlater =>
      exact .pass htree kept elapsed (hstart.trans hcontext) hnone hlater

end Chronicle

/-- In a plain forest no action ever presses. -/
theorem Agent.Composed.pressing_action?_eq_none {history : List Note} {agent : Agent G}
    (h : agent.Composed rules forest history) (hplain : Plain forest) (kept : NodeId → Bool) :
    agent.pressingAction? kept = none := by
  cases hpressing : agent.pressingAction? kept with
  | none => rfl
  | some action =>
      obtain ⟨hcurrent, hmust⟩ := pressing_action?_eq_some.1 hpressing
      have hheld := (current_action?_eq_some.1 hcurrent).1
      simp [hplain action (h.attentive.held action hheld).1.1] at hmust

namespace Command

/-- A command is followed by a chronicle of what comes after it. -/
theorem play_chronicle (hplain : Plain forest) (command : Command G) {history : List Note}
    {agent after : Agent G} (hagent : agent.Composed rules forest history)
    {later : List (Visit G)}
    (hlater : Chronicle rules forest (command.play rules agent).agent later after) :
    Chronicle rules forest agent (command.visits rules agent ++ later) after := by
  cases command with
  | update kept elapsed =>
      rw [visits, Agent.updateVisits]
      by_cases hpaused : agent.paused = true
      · rw [play, Play.map_apply, Agent.update_idle (.inl hpaused)] at hlater
        rw [if_pos hpaused]
        exact hlater
      · rw [if_neg hpaused]
        cases hbehavior : agent.behavior with
        | none =>
            rw [play, Play.map_apply, Agent.update_idle (.inr hbehavior)] at hlater
            exact hlater
        | some tree =>
            -- No action presses, so the update is one pass through the tree.
            have hpressing := hagent.pressing_action?_eq_none hplain kept
            rw [play, Play.map_apply,
              Agent.update_free (by simpa using hpaused) hbehavior hpressing] at hlater
            rw [hpressing]
            exact .pass (hagent.behavior tree hbehavior) _ elapsed rfl hagent.noneWaiting
              (hlater.move rfl)
  | setBehavior kept tree =>
      rw [play, Play.map_apply, (Agent.set_behavior_apply kept tree agent).1] at hlater
      exact hlater.move rfl
  | takeBehavior | setSelection | setPaused => exact hlater.move rfl

/-- A run without must-complete actions is a row of passes through trees. -/
theorem play_all_chronicle (hrules : rules.Modest) (hforest : Unambiguous forest)
    (hplain : Plain forest) {commands : List (Command G)}
    (hcommands : ∀ command ∈ commands, command.Within forest) {history : List Note}
    {agent : Agent G} (hagent : agent.Composed rules forest history) :
    Chronicle rules forest agent (playVisits rules commands agent)
      (playAll rules commands agent).agent := by
  induction commands generalizing agent history with
  | nil => exact .rest rfl
  | cons command rest ih =>
      obtain ⟨hcommand, hrest⟩ := List.forall_mem_cons.1 hcommands
      exact play_chronicle hplain command hagent
        (ih hrest (play_composed hrules hforest hcommand agent history hagent))

end Command

/-! ## From passes to runs -/

/-- A fresh agent has nothing stored, so every path in it is in order. -/
theorem Agent.fresh_tracked (steady : Node G → Prop) (node : Node G) (entity : EntityId) :
    node.Tracked steady (Agent.fresh entity) := by
  intro other _ _ place child _ hrunning
  have hunknown : (Agent.fresh (G := G) entity).statusOf child.id = .unknown := rfl
  rw [hunknown] at hrunning
  cases hrunning

namespace Chronicle

variable {before after : Agent G} {visits : List (Visit G)}

/-- What holds at the visits of every pass holds at those of a run. -/
theorem forall_visits {holds : Visit G → Prop} (h : Chronicle rules forest before visits after)
    (hpass : ∀ tree ∈ forest, ∀ kept elapsed, ∀ start : Agent G, start.NoneWaiting →
      ∀ visit ∈ tree.toNode.visits rules kept elapsed start, holds visit) :
    ∀ visit ∈ visits, holds visit := by
  induction h with
  | rest => simp
  | pass htree kept elapsed _ hnone _ ih =>
      exact List.forall_mem_append.2 ⟨hpass _ htree kept elapsed _ hnone, ih⟩

/-- The trails of the passes make up one of the run. -/
theorem trail {inside entrance : NodeId → Prop} {drift : Drift G}
    (h : Chronicle rules forest before visits after)
    (hcontext : ∀ {before after : Agent G}, after.context = before.context →
      drift.rel before after)
    (hpass : ∀ tree ∈ forest, ∀ kept elapsed, ∀ start : Agent G,
      Trail inside entrance drift start (tree.toNode.visits rules kept elapsed start)
        (tree.toNode.execute rules kept elapsed start).agent) :
    Trail inside entrance drift before visits after := by
  induction h with
  | rest hlast => exact .rest (hcontext hlast)
  | pass htree kept elapsed hstart _ _ ih =>
      exact ((hpass _ htree kept elapsed _).append ih).move (hcontext hstart)

/-- A run keeps track of running children, up to a visit that finds the gate of a steady node
closed. -/
theorem tracked (h : Chronicle rules forest before visits after) (hrules : rules.Modest)
    (hdistinct : Distinct forest) (steady : Node G → Prop)
    (hbefore : ∀ tree ∈ forest, tree.toNode.Tracked steady before) :
    ((∀ visit ∈ visits, visit.Unblocked rules steady) →
      ∀ tree ∈ forest, tree.toNode.Tracked steady after) ∧
    HoldsWhile (Visit.Unblocked rules steady) (Visit.Tracked steady) visits := by
  induction h with
  | rest hlast => exact ⟨fun _ tree htree => (hbefore tree htree).of_context hlast, trivial⟩
  | @pass before start after later tree htree kept elapsed hstart _ _ ih =>
      obtain ⟨hafter, hvisits⟩ := Node.execute_tracked hrules kept elapsed
        (hdistinct.tree htree) ((hbefore tree htree).of_context hstart)
      have hlater := fun hall => ih fun other hother => by
        by_cases hsame : other = tree
        · rw [hsame]
          exact hafter hall
        · -- A pass touches nothing of other trees.
          refine ((hbefore other hother).of_context hstart).congr fun id hid => ?_
          exact Drift.execute_entries hrules kept elapsed
            (fun hid' => hsame (hdistinct.tree_unique hother htree hid hid')) start
      refine ⟨fun hall => ?_, hvisits.append fun hall => (hlater hall).2⟩
      rw [List.forall_mem_append] at hall
      exact (hlater hall.1).1 hall.2

end Chronicle

end BehaviorTree
