import BehaviorTree.Proofs.Course

/-!
# Running nodes

A node that comes out of an execution running makes every node above it running, and so the
whole pass (`Node.running_ascends`). The other way round a running root has a running action
below it, unless a repeater or one of its kin runs on its own account
(`Node.running_descends`).

So a must-complete action that is held stands under a running root, and the status that an
update reports is always the one that is stored for the root (`running_reported`).
-/

namespace BehaviorTree

variable {G : Game} {rules : Rules G} {kept : NodeId → Bool} {elapsed : Nat}

namespace Node

/-! ## Children that are running -/

/-- A walk has a running turn exactly when it stopped at a running child. -/
theorem walk_running_iff {advance : Status} (hadvance : advance ≠ .running) (skip index : Nat)
    (children : List (Node G)) (agent : Agent G) :
    (∃ turn ∈ walkTurns rules kept elapsed advance skip children agent,
        turn.result rules kept elapsed = .running) ↔
      ∃ place, (walk rules kept elapsed advance skip index children agent).value =
        some (place, .running) := by
  induction children generalizing skip index agent with
  | nil => cases skip <;> simp [walkTurns, walk]
  | cons child rest ih =>
      cases skip with
      | succ skip => exact ih skip (index + 1) agent
      | zero =>
          have hfirst : Visit.result rules kept elapsed ⟨child, agent⟩ =
              (child.execute rules kept elapsed agent).value := rfl
          by_cases hstatus : (child.execute rules kept elapsed agent).value = advance
          · rw [walkTurns, if_pos hstatus, walk_advance hstatus]
            simp only [List.mem_cons, exists_eq_or_imp, hfirst, hstatus, or_iff_right hadvance]
            exact ih 0 (index + 1) _
          · rw [walkTurns, if_neg hstatus, walk_stop hstatus]
            simp [hfirst]

/-- A parallel comes out running if one of its children does. -/
theorem execute_all_running_iff (children : List (Node G)) (agent : Agent G) :
    (∃ turn ∈ allTurns rules kept elapsed children agent,
        turn.result rules kept elapsed = .running) ↔
      (executeAll rules kept elapsed children agent).value = true := by
  induction children generalizing agent with
  | nil => simp [allTurns, executeAll]
  | cons child rest ih =>
      simp only [allTurns, List.mem_cons, exists_eq_or_imp, ih]
      simp [executeAll, Visit.result]

/-- A decorator's child hands up running if it comes out running. -/
theorem execute_child_running_iff (child : Option (Node G)) (agent : Agent G) :
    (∃ turn ∈ allTurns rules kept elapsed child.toList agent,
        turn.result rules kept elapsed = .running) ↔
      (executeChild rules kept elapsed child agent).value = some .running := by
  cases child with
  | none => simp [allTurns, executeChild]
  | some node => simp [allTurns, executeChild, Visit.result]

/-- Whether a node runs on its own account, whatever its child does. -/
def Insists : Node G → Prop
  | decorator _ kind _ => kind = .repeater ∨ kind = .untilFail ∨ kind = .untilSuccess
  | composite _ _ _ | timed _ _ _ | action _ _ _ _ => False

instance (node : Node G) : Decidable node.Insists :=
  match node with
  | decorator _ kind _ =>
      inferInstanceAs (Decidable (kind = .repeater ∨ kind = .untilFail ∨ kind = .untilSuccess))
  | composite _ _ _ | timed _ _ _ | action _ _ _ _ => inferInstanceAs (Decidable False)

/-- A decorator that does not run on its own account is running for a running child only. -/
theorem reshape_eq_running {kind : DecoratorKind} {status : Status}
    (hkind : ¬ (kind = .repeater ∨ kind = .untilFail ∨ kind = .untilSuccess))
    (h : reshape kind status = .running) : status = .running := by
  cases kind with
  | inverter => exact Status.invert_eq_running.1 h
  | succeed | fail | limit =>
      by_contra hne
      simp [reshape, hne] at h
  | root => exact h
  | repeater | untilFail | untilSuccess => simp at hkind

/-- A running turn makes the logic of a node come out running; and only a running turn does,
unless the node insists. -/
theorem logic_running_iff {node : Node G} (hinner : node.family ≠ .action) (agent : Agent G) :
    ((∃ turn ∈ node.logicTurns rules kept elapsed agent,
        turn.result rules kept elapsed = .running) →
      (node.logic rules kept elapsed agent).value = .running) ∧
    (¬ node.Insists → (node.logic rules kept elapsed agent).value = .running →
      ∃ turn ∈ node.logicTurns rules kept elapsed agent,
        turn.result rules kept elapsed = .running) := by
  cases node with
  | composite head kind children =>
      cases hkind : kind.advance? with
      | some advance =>
          have hadvance : advance ≠ .running := by
            rintro rfl
            cases kind <;> simp [CompositeKind.advance?] at hkind
          -- Only the turn that a walk stops at can be running.
          rw [logicTurns, hkind, logic_walk hkind]
          dsimp only
          rw [walk_running_iff hadvance _ 0]
          refine ⟨?_, fun _ hrunning => ?_⟩
          · rintro ⟨place, hstop⟩
            rw [hstop]
            rfl
          · generalize (walk rules kept elapsed advance _ 0 children agent) = stop at hrunning ⊢
            obtain ⟨_ | ⟨index, status⟩, after, notes⟩ := stop
            · exact absurd hrunning hadvance
            · obtain rfl : status = .running := hrunning
              exact ⟨index, rfl⟩
      | none =>
          rw [logicTurns, hkind, logic_all hkind]
          dsimp only
          rw [execute_all_running_iff]
          refine ⟨fun hall => if_pos hall, fun _ hrunning => ?_⟩
          by_contra hall
          rw [if_neg hall] at hrunning
          cases hrunning
  | decorator head kind child =>
      rw [logicTurns]
      cases hspent : (spent head.id kind agent).value with
      | true =>
          -- A spent limit executes nothing and answers for itself.
          rw [logic_spent hspent]
          simp
      | false =>
          rw [logic_unspent hspent]
          simp only [Bool.false_eq_true, ↓reduceIte, execute_child_running_iff]
          refine ⟨fun hchild => ?_, fun hplain hrunning => ?_⟩
          · rw [hchild]
            exact reshape_running kind
          · generalize executeChild rules kept elapsed child agent = result at hrunning ⊢
            obtain ⟨_ | status, after, notes⟩ := result
            · cases hrunning
            · exact congrArg some (reshape_eq_running hplain hrunning)
  | timed | action => exact absurd rfl hinner

/-! ## Running upwards and downwards -/

/-- An execution in which a child comes out running comes out running itself. -/
theorem execute_of_running_turn {node : Node G} {agent : Agent G} {turn : Visit G}
    (hturn : turn ∈ node.turns rules kept elapsed agent)
    (hrunning : turn.result rules kept elapsed = .running) :
    (node.execute rules kept elapsed agent).value = .running := by
  have hinner : node.family ≠ .action := by
    intro hleaf
    have hchild := turns_mem hturn
    simp [children_leaf hleaf] at hchild
  rw [turns] at hturn
  cases hopen : (node.approach rules agent).value with
  | false =>
      rw [hopen] at hturn
      cases hturn
  | true =>
      rw [hopen] at hturn
      rw [execute_inner_open hinner hopen]
      exact (logic_running_iff hinner _).1 ⟨turn, hturn, hrunning⟩

/-- A composite or decorator that comes out running has a running child, unless it insists. -/
theorem running_turn_of_execute {node : Node G} (hinner : node.family ≠ .action)
    (hplain : ¬ node.Insists) {agent : Agent G}
    (hrunning : (node.execute rules kept elapsed agent).value = .running) :
    ∃ turn ∈ node.turns rules kept elapsed agent, turn.result rules kept elapsed = .running := by
  rw [turns]
  cases hopen : (node.approach rules agent).value with
  | false =>
      rw [execute_inner_closed hinner hopen] at hrunning
      cases hrunning
  | true =>
      rw [execute_inner_open hinner hopen] at hrunning
      exact (logic_running_iff hinner _).2 hplain hrunning

/-- If any execution that an execution comes to returns running, so does the execution. -/
theorem running_ascends (node : Node G) (agent : Agent G) :
    ∀ visit ∈ node.visits rules kept elapsed agent, visit.result rules kept elapsed = .running →
      (node.execute rules kept elapsed agent).value = .running := by
  induction node using by_family generalizing agent with
  | inner node _ ih =>
      intro visit hvisit hrunning
      rw [visits_eq] at hvisit
      rcases List.mem_cons.1 hvisit with rfl | hbelow
      · exact hrunning
      · obtain ⟨turn, hturn, hvisit⟩ := List.mem_flatMap.1 hbelow
        exact execute_of_running_turn hturn
          (ih turn.node (turns_mem hturn) turn.agent visit hvisit hrunning)
  | leaf node hleaf =>
      intro visit hvisit hrunning
      rw [visits_leaf hleaf, List.mem_singleton] at hvisit
      rw [hvisit] at hrunning
      exact hrunning

/-- Where nothing insists, an execution returns running only if some action that it executes
does. -/
theorem running_descends {node : Node G} (hplain : ∀ other ∈ node.preorder, ¬ other.Insists)
    {agent : Agent G} (hrunning : (node.execute rules kept elapsed agent).value = .running) :
    ∃ visit ∈ node.visits rules kept elapsed agent,
      visit.node.family = .action ∧ visit.result rules kept elapsed = .running := by
  induction node using by_family generalizing agent with
  | inner node hinner ih =>
      obtain ⟨turn, hturn, hrun⟩ :=
        running_turn_of_execute hinner (hplain node node.self_mem_preorder) hrunning
      have hchild := turns_mem hturn
      obtain ⟨visit, hvisit, hleaf, hresult⟩ := ih turn.node hchild
        (fun other hother => hplain other (preorder_trans (child_mem_preorder hchild) hother)) hrun
      rw [visits_eq]
      exact ⟨visit, List.mem_cons_of_mem _ (List.mem_flatMap.2 ⟨turn, hturn, hvisit⟩), hleaf,
        hresult⟩
  | leaf node hleaf =>
      rw [visits_leaf hleaf]
      exact ⟨⟨node, agent⟩, List.mem_singleton_self _, hleaf, hrunning⟩

end Node

/-! ## Actions that are held -/

/-- Doings in which an action that comes to be held has come out running. -/
def Passage.holding : Passage G where
  allows before notes after := ∀ action, after.heldAction? = some action →
    before.heldAction? = some action ∨ (action.id, .running) ∈ executions notes
  stay _ _ h := .inl h
  join hearly hlate action h := by
    rw [executions_append, List.mem_append]
    rcases hlate action h with hmiddle | hnoted
    · exact (hearly action hmiddle).imp_right .inl
    · exact .inr (.inr hnoted)

/-- What the engine does at a node above others holds no action that has not come out running. -/
theorem Passage.holding_serves (id : NodeId) : (Passage.holding (G := G)).Serves id where
  toTends := Passage.tends_of_asks fun hstands hspares _ action h => by
    rw [hspares.held_action?_eq hstands.entity (by simp [Region.progress, Slot.IsGame])] at h
    exact .inl h
  conclude agent status action h := by
    rw [Agent.held_action?_settle] at h
    exact .inl h

/-- A leaf holds no action that has not come out running. -/
theorem Node.LeafRun.holding {node : Node G} {agent : Agent G} {outcome : Outcome G Status}
    (h : node.LeafRun rules kept agent outcome) :
    Passage.holding.allows agent outcome.notes outcome.agent := by
  intro action haction
  have hexecutions := h.executions_eq
  cases h with
  | claimed hwaiting =>
      rw [Agent.held_action?_settle, Agent.held_action?_forget_completed] at haction
      exact .inl haction
  | blocked hwaiting hnear =>
      rw [Agent.held_action?_settle, Agent.held_action?_release, hnear.touches.held_action?_eq,
        Option.filter_eq_some_iff] at haction
      exact .inl haction.1
  | ran hwaiting hnear hdecided =>
      rw [Agent.held_action?_settle] at haction
      rcases Agent.held_action?_follow haction with ⟨rfl, rfl⟩ | ⟨hheld, -⟩
      · rw [hexecutions]
        exact .inr (List.mem_singleton_self _)
      · rw [hnear.touches.held_action?_eq] at hheld
        exact .inl hheld

/-- An action that an execution comes to hold has come out running. -/
theorem Node.execute_holding (hrules : rules.Modest) (kept : NodeId → Bool) (elapsed : Nat)
    (node : Node G) : (node.execute rules kept elapsed).Keeps .holding := by
  induction node using by_family with
  | inner node hinner ih => exact execute_keeps hrules hinner (Passage.holding_serves node.id) ih
  | leaf node hleaf =>
      exact fun agent => (execute_leaf_run hrules kept elapsed hleaf agent).holding

/-- After a pass an action is held that was held before, or the root is running. -/
theorem Node.held_or_running (hrules : rules.Modest) (kept : NodeId → Bool) (elapsed : Nat)
    (node : Node G) (agent : Agent G) {action : Node G}
    (hheld : (node.execute rules kept elapsed agent).agent.heldAction? = some action) :
    agent.heldAction? = some action ∨
      (node.execute rules kept elapsed agent).value = .running := by
  refine (node.execute_holding hrules kept elapsed agent action hheld).imp_right fun hnoted => ?_
  have hmem := (node.executions_perm hrules kept elapsed agent).subset hnoted
  obtain ⟨visit, hvisit, heq⟩ := List.mem_map.1 hmem
  exact node.running_ascends agent visit hvisit (congrArg Prod.snd heq)

/-! ## Runs on a single tree -/

/-- Between two updates of an agent that runs a single tree: a must-complete action that is held
stands under a running root, and the agent reports the status that is stored for the root. -/
structure Agent.Backed (rules : Rules G) (tree : Tree G) (history : List Note) (agent : Agent G) :
    Prop extends agent.Composed rules [tree] history where
  backed : ∀ action, agent.heldAction? = some action → action.mustComplete →
    agent.statusOf tree.id = .running
  reported : agent.status = agent.statusOf tree.id

namespace Agent

variable {tree : Tree G} {history : List Note} {agent : Agent G}

/-- In a single tree the identity of the root is no action's. -/
theorem root_id_ne (hforest : Unambiguous [tree]) {action : Node G}
    (haction : IsActionOf [tree] action) : tree.id ≠ action.id := by
  intro heq
  have hroot : tree.toNode ∈ forestNodes [tree] :=
    mem_forest_nodes (List.mem_singleton_self tree) tree.toNode.self_mem_preorder
  have hsame : tree.toNode = action := hforest _ hroot action haction.1 heq
  have hleaf := haction.2
  rw [← hsame] at hleaf
  cases hleaf

/-- The execution of an action alone leaves the status of the root as it is. -/
theorem status_of_root_alone (hrules : rules.Modest) (hforest : Unambiguous [tree])
    {action : Node G} (haction : IsActionOf [tree] action) (kept : NodeId → Bool) (elapsed : Nat)
    (agent : Agent G) :
    (action.execute rules kept elapsed agent).agent.statusOf tree.id = agent.statusOf tree.id := by
  have hroot : tree.id ∉ action.ids :=
    Node.not_mem_ids_leaf haction.2 (root_id_ne hforest haction)
  exact Node.status_of_execute_of_not_mem hrules kept elapsed hroot agent

/-- An agent that runs its tree keeps the action that it holds alive. -/
theorem Composed.pressing_of_held (h : agent.Composed rules [tree] history)
    (hbehavior : agent.behavior = some tree) {action : Node G}
    (hheld : agent.heldAction? = some action) (hmust : action.mustComplete)
    (kept : NodeId → Bool) : agent.pressingAction? kept = some action := by
  obtain ⟨other, hother, hmem⟩ := List.mem_flatMap.1 (h.attentive.held action hheld).1.1
  obtain rfl := List.mem_singleton.1 hother
  refine pressing_action?_eq_some.2 ⟨current_action?_eq_some.2 ⟨hheld, ?_⟩, hmust⟩
  rw [alive_eq_in_use hbehavior, Tree.inUse, Bool.or_eq_true]
  exact .inr (List.any_eq_true.2 ⟨action, hmem, by simp⟩)

/-- An action that ended on its own is no longer held. -/
theorem Composed.not_held_of_ended (hrules : rules.Modest) (hdecided : rules.Decided)
    (hforest : Unambiguous [tree]) (h : agent.Composed rules [tree] history)
    {action : Node G} (haction : IsActionOf [tree] action)
    (hheld : agent.heldAction? = some action) {alone : Outcome G Status}
    (halone : alone = action.execute rules kept elapsed agent) (hended : alone.value ≠ .running) :
    alone.agent.heldAction? = none := by
  have hcomposed := execute_composed hrules hforest kept elapsed haction.1 agent history h
  have hexecutions := (Node.execute_leaf_run hrules kept elapsed haction.2 agent).executions_eq
  have hlast := action.status_of_execute rules kept elapsed agent
  have hholding := action.execute_holding hrules kept elapsed agent
  rw [← halone] at hcomposed hexecutions hlast hholding
  cases hstill : alone.agent.heldAction? with
  | none => rfl
  | some other =>
      -- Whatever is held now was held before or has come out running: it is the action.
      have hrunning := (hcomposed.attentive.held other hstill).2.running hdecided
      have hsame : other.id = action.id := by
        rcases hholding other hstill with hbefore | hnoted
        · rw [Option.some.inj (hbefore.symm.trans hheld)]
        · rw [hexecutions, List.mem_singleton] at hnoted
          exact congrArg Prod.fst hnoted
      rw [hsame, hlast] at hrunning
      exact absurd hrunning hended

/-- An update answers with the status that it leaves the agent with. -/
theorem value_update (rules : Rules G) (kept : NodeId → Bool) (elapsed : Nat) (agent : Agent G) :
    (Agent.update rules kept elapsed agent).value =
      (Agent.update rules kept elapsed agent).agent.status := by
  have hcourse := update_course rules kept elapsed agent
  generalize agent.updateVisits rules kept elapsed = visits at hcourse
  generalize Agent.update rules kept elapsed agent = outcome at hcourse ⊢
  cases hcourse with
  | idle | free | busy => rfl
  | ended _ _ _ _ _ _ hfinal =>
      rw [hfinal]
      rfl

/-- An update preserves what is said of the root, whichever course it takes. -/
theorem update_backed (hrules : rules.Modest) (hdecided : rules.Decided)
    (hforest : Unambiguous [tree]) (kept : NodeId → Bool) (elapsed : Nat) :
    (Agent.update rules kept elapsed).Keeps (.invariant (Backed rules tree)) := by
  intro agent history h
  have hcomposed := update_composed hrules hforest kept elapsed agent history h.toComposed
  have hcourse := update_course rules kept elapsed agent
  generalize agent.updateVisits rules kept elapsed = visits at hcourse
  generalize Agent.update rules kept elapsed agent = outcome at hcourse hcomposed ⊢
  cases hcourse with
  | idle => exact ⟨hcomposed, h.backed, h.reported⟩
  | @free other root hpaused hbehavior hpressing hroot =>
      obtain rfl := List.mem_singleton.1 (h.behavior other hbehavior)
      have hstored : root.agent.statusOf other.id = root.value := by
        rw [hroot]
        exact other.toNode.status_of_execute rules (other.inUse kept) elapsed agent.nextTick
      refine ⟨hcomposed, fun action hheld hmust => ?_, hstored.symm⟩
      -- Nothing pressed before the pass, so what is held after it has come out running in it.
      rw [hroot] at hheld
      rcases other.toNode.held_or_running hrules (other.inUse kept) elapsed agent.nextTick hheld
        with hbefore | hrunning
      · have hpress := h.toComposed.pressing_of_held hbehavior hbefore hmust kept
        rw [hpressing] at hpress
        cases hpress
      · rw [← hroot] at hrunning
        exact hstored.trans hrunning
  | @busy other action alone hpaused hbehavior hpressing halone hrunning =>
      obtain ⟨hcurrent, hmust⟩ := pressing_action?_eq_some.1 hpressing
      have hheld := (current_action?_eq_some.1 hcurrent).1
      have hroot : alone.agent.statusOf tree.id = .running := by
        rw [halone]
        exact (status_of_root_alone hrules hforest (h.attentive.held action hheld).1 _ elapsed
          agent.nextTick).trans (h.backed action hheld hmust)
      exact ⟨hcomposed, fun _ _ _ => hroot, hroot.symm⟩
  | @ended other action alone root final hpaused hbehavior hpressing halone hended hroot hfinal =>
      obtain rfl := List.mem_singleton.1 (h.behavior other hbehavior)
      have hheld := (current_action?_eq_some.1 (pressing_action?_eq_some.1 hpressing).1).1
      have haction := (h.attentive.held action hheld).1
      have hstored : final.statusOf other.id = root.value := by
        rw [hfinal, status_of_forget_of_slot_ne _ _ (by simp), hroot]
        exact other.toNode.status_of_execute rules (other.inUse kept) elapsed _
      have hstatus : final.status = root.value := by rw [hfinal]; rfl
      refine ⟨hcomposed, fun later hlater hmust => ?_, hstatus.trans hstored.symm⟩
      -- The action that ended is let go of before the pass starts.
      rw [hfinal, held_action?_forget_completed] at hlater
      have hlater : root.agent.heldAction? = some later := hlater
      rw [hroot] at hlater
      rcases other.toNode.held_or_running hrules (other.inUse kept) elapsed _ hlater
        with hbefore | hrunning
      · rw [held_action?_with_waiting,
          h.toComposed.next_tick.not_held_of_ended hrules hdecided hforest haction hheld halone
            hended] at hbefore
        cases hbefore
      · rw [← hroot] at hrunning
        exact hstored.trans hrunning

end Agent

namespace Command

variable {tree : Tree G}

/-- Every command preserves what is said of the root. -/
theorem play_backed (hrules : rules.Modest) (hdecided : rules.Decided)
    (hforest : Unambiguous [tree]) {command : Command G} (hcommand : command.Within [tree]) :
    (command.play rules).Keeps (.invariant (Agent.Backed rules tree)) := by
  intro agent history h
  have hcomposed := play_composed hrules hforest hcommand agent history h.toComposed
  cases command with
  | update kept elapsed =>
      rw [play, Play.map_apply]
      exact Agent.update_backed hrules hdecided hforest kept elapsed agent history h
  | setBehavior kept other =>
      rw [play, Play.map_apply] at hcomposed ⊢
      have hagent := (Agent.set_behavior_apply kept other agent).1
      refine ⟨hcomposed, ?_, ?_⟩
      · rw [hagent]
        exact h.backed
      · rw [hagent]
        exact h.reported
  | takeBehavior | setSelection | setPaused => exact ⟨hcomposed, h.backed, h.reported⟩

end Command

/-- What is said of the root holds of every agent that is reached on a single tree. -/
theorem Agent.Reached.backed {tree : Tree G} {history : List Note} {agent : Agent G}
    (hagent : agent.Reached rules [tree] history) (hrules : rules.Modest)
    (hdecided : rules.Decided) (hforest : Unambiguous [tree]) :
    agent.Backed rules tree history := by
  obtain ⟨entity, commands, hcommands, rfl, rfl⟩ := hagent
  refine Command.play_all_keeps (fun command h => Command.play_backed hrules hdecided hforest
    (hcommands command h)) (Agent.fresh entity) [] ⟨Agent.fresh_composed entity, ?_, rfl⟩
  simp [Agent.fresh, Agent.heldAction?]

/-- Running propagates to the top. If any execution of a pass returned running, so does the root;
and where nothing insists, the root returns running only if some action that was executed does.
So an agent that has run a single tree only reports after each update, whatever its course, the
status that is stored for the root. -/
theorem running_reported (tree : Tree G) :
    (∀ (rules : Rules G) (kept : NodeId → Bool) (elapsed : Nat) (agent : Agent G),
      (∃ visit ∈ tree.toNode.visits rules kept elapsed agent,
        visit.result rules kept elapsed = .running) →
          (tree.toNode.execute rules kept elapsed agent).value = .running) ∧
    ((∀ node ∈ tree.toNode.preorder, ¬ node.Insists) →
      ∀ (rules : Rules G) (kept : NodeId → Bool) (elapsed : Nat) (agent : Agent G),
        (tree.toNode.execute rules kept elapsed agent).value = .running →
          ∃ visit ∈ tree.toNode.visits rules kept elapsed agent,
            visit.node.family = .action ∧ visit.result rules kept elapsed = .running) ∧
    (Unambiguous [tree] → ∀ rules : Rules G, rules.Modest → rules.Decided →
      ∀ (history : List Note) (agent : Agent G), agent.Reached rules [tree] history →
        agent.paused = false → agent.behavior = some tree →
          ∀ (kept : NodeId → Bool) (elapsed : Nat),
            let outcome := Agent.update rules kept elapsed agent
            outcome.value = outcome.agent.status ∧
              outcome.agent.status = outcome.agent.statusOf tree.id) := by
  refine ⟨?_, ?_, ?_⟩
  · rintro rules kept elapsed agent ⟨visit, hvisit, hrunning⟩
    exact tree.toNode.running_ascends agent visit hvisit hrunning
  · intro hplain rules kept elapsed agent hrunning
    exact Node.running_descends hplain hrunning
  · intro hforest rules hrules hdecided history agent hagent _ _ kept elapsed outcome
    have hbacked := hagent.backed hrules hdecided hforest
    have hafter := Agent.update_backed hrules hdecided hforest kept elapsed agent history hbacked
    exact ⟨Agent.value_update rules kept elapsed agent, hafter.reported⟩

/-- A must-complete leaf that runs makes the root running, and is the action that the root owes it
to; alone in the next update it leaves the agent with the status of the root. -/
theorem running_reported_sole :
    let rules := Rules.clocked deadline
    let kept := fun _ : NodeId => false
    let agent := (clockedRun deadline soleTree [1]).agent
    (soleTree.toNode.execute rules kept 1 agent).value = .running ∧
      (∃ visit ∈ soleTree.toNode.visits rules kept 1 agent,
        visit.node.family = .action ∧ visit.result rules kept 1 = .running) ∧
      (Agent.update rules kept 1 agent).agent.status =
        (Agent.update rules kept 1 agent).agent.statusOf soleTree.id := by
  intro rules kept agent
  obtain ⟨hascends, hdescends, hreported⟩ := running_reported soleTree
  have hvisit : ∃ visit ∈ soleTree.toNode.visits rules kept 1 agent,
      visit.result rules kept 1 = .running :=
    ⟨_, List.mem_of_getElem? (i := 1) rfl, by decide⟩
  have hroot := hascends rules kept 1 agent hvisit
  refine ⟨hroot, hdescends (by decide) rules kept 1 agent hroot, ?_⟩
  exact (hreported sole_tree_distinct.unambiguous rules (Rules.clocked_modest deadline)
    deadline_decided _ agent (clocked_run_reached deadline soleTree [1]) rfl rfl kept 1).2

end BehaviorTree
