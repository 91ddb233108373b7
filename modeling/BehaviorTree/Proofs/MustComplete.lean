import BehaviorTree.Proofs.CurrentAction
import BehaviorTree.Proofs.OneChild
import BehaviorTree.Proofs.Visits

/-!
# Must-complete actions

A must-complete action that is the current one goes first in every update, once and without
being entered again. While it runs it has the update for itself. When it ends, one pass
through the tree follows, in which the action hands its result to its parent at most once and
nothing of its own is called again.

That the result is handed over at most once is a matter of the whole tree: of the children of
a node, only one can hold the action (`Node.execute_hands`).
-/

namespace BehaviorTree

variable {G : Game} {rules : Rules G} {kept : NodeId → Bool} {elapsed : Nat}

/-! ## What is noted of a node -/

/-- What notes tell about a node. -/
def notesAbout (id : NodeId) (notes : List Note) : List Note :=
  notes.filter fun note => note.node? = some id

/-- What a succession of notes tells about a node is told by its parts, one after the other. -/
theorem notes_about_append (id : NodeId) (early late : List Note) :
    notesAbout id (early ++ late) = notesAbout id early ++ notesAbout id late :=
  List.filter_append early late

/-- Notes of which none is about a node tell nothing about it. -/
theorem notes_about_eq_nil {id : NodeId} {notes : List Note}
    (h : ∀ note ∈ notes, note.node? ≠ some id) : notesAbout id notes = [] := by
  simpa [notesAbout] using h

/-- The executions of a node are those among what the notes tell about it. -/
theorem executions_filter (id : NodeId) (notes : List Note) :
    (executions notes).filter (fun execution => execution.1 = id) =
      executions (notesAbout id notes) := by
  rw [executions, executions, notesAbout, List.filter_filterMap, List.filterMap_filter]
  congr 1
  funext note
  cases note <;> simp [Note.execution?, Note.node?, Option.filter]

/-- Where at most an execution is told of a node, nothing of the node's own is called. -/
theorem not_calls_of_notes_about {id : NodeId} {status : Status} {notes : List Note}
    (h : notesAbout id notes = [] ∨ notesAbout id notes = [.executed id status]) :
    ∀ note ∈ notes, ¬ note.Calls id := by
  intro note hnote hcalls
  have habout : note ∈ notesAbout id notes :=
    List.mem_filter.2 ⟨hnote, by simpa using hcalls.node?_eq⟩
  rcases h with hnone | hone
  · simp [hnone] at habout
  · obtain rfl : note = .executed id status := by simpa [hone] using habout
    exact hcalls

/-! ## Passing by an action -/

/-- Doings that tell nothing about a node and leave its status and its waiting result alone. -/
def Passage.aloof (id : NodeId) : Passage G where
  allows before notes after :=
    notesAbout id notes = [] ∧ after.statusOf id = before.statusOf id ∧
      after.waiting? id = before.waiting? id
  stay agent := ⟨rfl, rfl, rfl⟩
  join := by
    rintro first second third early late ⟨hearly, hstatus, hwaiting⟩ ⟨hlate, hstatus', hwaiting'⟩
    refine ⟨?_, hstatus'.trans hstatus, hwaiting'.trans hwaiting⟩
    rw [notes_about_append, hearly, hlate, List.append_nil]

/-- What is done at another node passes by a node. -/
theorem Passage.aloof_serves {id other : NodeId} (hne : id ≠ other) :
    (Passage.aloof (G := G) id).Serves other where
  toTends := by
    refine Passage.tends_of_asks fun _ hspares hnotes => ⟨?_, ?_, ?_⟩
    · exact notes_about_eq_nil fun note hnote habout =>
        hne ((hnotes note hnote).about id (Option.mem_def.2 habout))
    · exact hspares.status_of_eq (by simp [Region.progress, Slot.IsGame])
    · exact hspares.waiting?_eq (by simp [Region.progress, Slot.IsGame])
  conclude agent status :=
    ⟨by simp [notesAbout, Note.node?, Ne.symm hne], agent.status_of_settle_of_ne status hne,
      agent.waiting?_settle other id status⟩

/-- An execution passes by a node that is not in its subtree. -/
theorem Node.execute_aloof (hrules : rules.Modest) (kept : NodeId → Bool) (elapsed : Nat)
    {node : Node G} {id : NodeId} (hid : id ∉ node.ids) :
    (node.execute rules kept elapsed).Keeps (.aloof id) := by
  intro agent
  have hreach := node.execute_reach hrules kept elapsed (fun _ hmem => hmem) agent
  refine ⟨notes_about_eq_nil fun note hnote habout => hid (hreach.about note hnote id habout),
    ?_, ?_⟩
  · exact hreach.spares.status_of_eq (Region.not_under (by simp [Slot.IsGame]) hid)
  · exact hreach.spares.waiting?_eq (Region.not_under (by simp [Slot.IsGame]) hid)

/-! ## Handing a result over -/

/-- A waiting result of an action goes on waiting, or it is handed over, once and without
anything else of the action's own being called. -/
def Agent.Hands (id : NodeId) (status : Status) (before : Agent G) (notes : List Note)
    (after : Agent G) : Prop :=
  before.waiting? id = some status → before.statusOf id = status →
    after.statusOf id = status ∧
      (notesAbout id notes = [] ∧ after.waiting? id = some status ∨
        notesAbout id notes = [.executed id status] ∧ after.waiting? id = none)

/-- What passes by an action may come before and after its result is handed over. -/
theorem Passage.aloof_flanks (id : NodeId) (status : Status) :
    (Passage.aloof (G := G) id).Flanks (Agent.Hands id status) where
  of_allows := by
    rintro before after notes ⟨hnotes, hstatus, hwaiting⟩ hresult hlast
    exact ⟨hstatus.trans hlast, .inl ⟨hnotes, hwaiting.trans hresult⟩⟩
  ahead := by
    rintro first second third early late ⟨hnotes, hstatus, hwaiting⟩ hhands hresult hlast
    rw [notes_about_append, hnotes, List.nil_append]
    exact hhands (hwaiting.trans hresult) (hstatus.trans hlast)
  behind := by
    rintro first second third early late hhands ⟨hnotes, hstatus, hwaiting⟩ hresult hlast
    obtain ⟨hsecond, hcase⟩ := hhands hresult hlast
    rw [notes_about_append, hnotes, List.append_nil, hwaiting]
    exact ⟨hstatus.trans hsecond, hcase⟩

/-- A leaf hands a waiting result of its own over and calls nothing else. -/
theorem Node.LeafRun.hands {node : Node G} {agent : Agent G} {outcome : Outcome G Status}
    (h : node.LeafRun rules kept agent outcome) (status : Status) :
    agent.Hands node.id status outcome.notes outcome.agent := by
  intro hresult _
  cases h with
  | claimed hwaiting =>
      obtain rfl := Option.some.inj (hwaiting.symm.trans hresult)
      refine ⟨Agent.status_of_settle_self _ _ _, .inr ⟨by simp [notesAbout, Note.node?], ?_⟩⟩
      rw [Agent.waiting?_settle, Agent.waiting?_forget_self]
  | blocked hwaiting | ran hwaiting =>
      rw [hwaiting] at hresult
      cases hresult

/-- A leaf hands over its own result, and passes by all others. -/
theorem Node.execute_hands_leaf (hrules : rules.Modest) (kept : NodeId → Bool) (elapsed : Nat)
    {node : Node G} (hleaf : node.family = .action) (id : NodeId) (status : Status) :
    (node.execute rules kept elapsed).Does (Agent.Hands id status) := by
  by_cases hid : id = node.id
  · rw [hid]
    exact fun agent => (execute_leaf_run hrules kept elapsed hleaf agent).hands status
  · refine (execute_aloof hrules kept elapsed ?_).does (Passage.aloof_flanks id status)
    rw [ids_leaf hleaf]
    exact fun hmem => hid (List.mem_singleton.1 hmem)

/-- Where identities are distinct, an execution hands a waiting result over at most once. -/
theorem Node.execute_hands (hrules : rules.Modest) (kept : NodeId → Bool) (elapsed : Nat)
    {node : Node G} (hdistinct : node.Distinct) {id : NodeId}
    (hleaf : ∀ other ∈ node.preorder, other.id = id → other.family = .action) (status : Status) :
    (node.execute rules kept elapsed).Does (Agent.Hands id status) := by
  have hflanks := Passage.aloof_flanks (G := G) id status
  -- Of two children only one can hold the action, and an execution passes by the other.
  have hothers : ∀ parent : Node G, parent.Distinct →
      parent.children.Pairwise fun left right =>
        (left.execute rules kept elapsed).Keeps (.aloof id) ∨
          (right.execute rules kept elapsed).Keeps (.aloof id) := by
    intro parent hparent
    refine hparent.children_disjoint.imp fun {left right} hdisjoint => ?_
    by_cases hid : id ∈ left.ids
    · exact .inr (execute_aloof hrules kept elapsed (hdisjoint id hid))
    · exact .inl (execute_aloof hrules kept elapsed hid)
  induction node using by_family with
  | inner node hfamily ih =>
      have hne : id ≠ node.id := fun heq => hfamily (hleaf node node.self_mem_preorder heq.symm)
      refine execute_does hrules hfamily hflanks (Passage.aloof_serves hne)
        ⟨fun child hchild => ?_, hothers node hdistinct⟩
      exact ih child hchild (hdistinct.child hchild)
        fun other hother => hleaf other (preorder_trans (child_mem_preorder hchild) hother)
  | leaf node hfamily => exact execute_hands_leaf hrules kept elapsed hfamily id status

/-! ## One execution each -/

/-- Doings in which a node is not executed. -/
def Passage.unexecuted (id : NodeId) : Passage G where
  allows _ notes _ := ∀ execution ∈ executions notes, execution.1 ≠ id
  stay _ := by simp [executions]
  join hearly hlate := by
    intro execution hexecution
    rw [executions_append, List.mem_append] at hexecution
    exact hexecution.elim (hearly execution) (hlate execution)

/-- An execution of a node tells something about it. -/
theorem executions_about {notes : List Note} {id : NodeId} {status : Status}
    (h : (id, status) ∈ executions notes) : ∃ note ∈ notes, note.node? = some id := by
  obtain ⟨note, hnote, hexecution⟩ := List.mem_filterMap.1 h
  refine ⟨note, hnote, ?_⟩
  cases note <;> simp_all [Note.execution?, Note.node?]

/-- The engine itself executes no node. -/
theorem Passage.unexecuted_tends (id other : NodeId) :
    (Passage.unexecuted (G := G) id).Tends other :=
  Passage.tends_of_asks fun _ _ hnotes execution hexecution => by
    simp [executions_eq_nil_of_asks hnotes] at hexecution

namespace Node

/-- Where identities are distinct, a composite or decorator is executed once in its own
execution, and last of all. -/
theorem execute_executions (hrules : rules.Modest) (kept : NodeId → Bool) (elapsed : Nat)
    {node : Node G} (hinner : node.family ≠ .action) (hdistinct : node.Distinct)
    (agent : Agent G) :
    let outcome := node.execute rules kept elapsed agent
    ∃ reached, executions outcome.notes = reached ++ [(node.id, outcome.value)] ∧
      ∀ execution ∈ reached, execution.1 ≠ node.id := by
  have hchildren : ∀ child ∈ node.children,
      (child.execute rules kept elapsed).Keeps (.unexecuted node.id) := by
    rintro child hchild agent ⟨id, status⟩ hexecution rfl
    obtain ⟨note, hnote, habout⟩ := executions_about hexecution
    have hreach := child.execute_reach hrules kept elapsed (fun _ hmem => hmem) agent
    exact hdistinct.id_not_mem hchild (hreach.about note hnote _ habout)
  obtain ⟨status, last, notes, heq, hnotes⟩ :=
    execute_settles hrules hinner (Passage.unexecuted_tends node.id node.id) hchildren agent
  rw [heq]
  exact ⟨executions notes, executions_append notes _, hnotes⟩

/-- A running leaf is executed once, without being entered and without any other node. -/
theorem LeafRun.alone {node : Node G} {agent : Agent G} {outcome : Outcome G Status}
    (h : node.LeafRun rules kept agent outcome) (hnone : agent.waiting? node.id = none)
    (hrunning : agent.statusOf node.id = .running) :
    executions outcome.notes = [(node.id, outcome.value)] ∧
      .entered node.id ∉ outcome.notes := by
  refine ⟨h.executions_eq, ?_⟩
  cases h with
  | claimed hwaiting =>
      rw [hnone] at hwaiting
      cases hwaiting
  | blocked hwaiting hnear | ran hwaiting hnear hdecided =>
      have hentered := mt hnear.entered.1 (not_not.2 hrunning)
      simp [hentered]

/-- A leaf that is held and found running stays held. -/
theorem LeafRun.stays_held {node : Node G} {agent : Agent G} {outcome : Outcome G Status}
    (h : node.LeafRun rules kept agent outcome) (hnone : agent.waiting? node.id = none)
    (hheld : agent.heldAction? = some node) (hrunning : outcome.value = .running) :
    outcome.agent.heldAction? = some node := by
  cases h with
  | claimed hwaiting =>
      rw [hnone] at hwaiting
      cases hwaiting
  | blocked => cases hrunning
  | @ran near notes status hwaiting hnear hdecided =>
      obtain rfl : status = .running := hrunning
      rw [Agent.held_action?_settle]
      rcases near.held_action?_hold kept node with hself | ⟨other, hpinned, -⟩
      · exact hself
      · -- Only another action could keep the leaf from being held.
        have hother : other = node := by
          rw [← hnear.touches.held_action?_eq, hpinned.1] at hheld
          exact Option.some.inj hheld
        exact absurd (congrArg id hother) hpinned.2.1

end Node

/-! ## Updates with a must-complete action -/

namespace Agent

/-- An action has an update for itself. `rest` is what the update notes after it. -/
structure Monopoly (kept : NodeId → Bool) (agent : Agent G) (action : Node G)
    (rest : List Note) (outcome : Outcome G Status) : Prop where
  quiet : ∀ note ∈ rest, note.IsReport
  value : outcome.value = .running
  status : outcome.agent.status = .running
  current : outcome.agent.currentAction? kept = some action
  others : ∀ id, id ≠ action.id →
    outcome.agent.statusOf id = agent.statusOf id ∧
      outcome.agent.resumeIndexOf id = agent.resumeIndexOf id ∧
      outcome.agent.timerOf id = agent.timerOf id ∧
      outcome.agent.execCountOf id = agent.execCountOf id

/-- An action has ended with a result, and one pass through a tree follows. `rest` is what
the update notes after the action. -/
structure HandOver (tree : Tree G) (action : Node G) (result : Status) (rest : List Note)
    (outcome : Outcome G Status) : Prop where
  pass : ∃ reached, executions rest = reached ++ [(tree.id, outcome.value)] ∧
    ∀ execution ∈ reached, execution.1 ≠ tree.id
  handed : (executions rest).filter (fun execution => execution.1 = action.id) = [] ∨
    (executions rest).filter (fun execution => execution.1 = action.id) = [(action.id, result)]
  uncalled : ∀ note ∈ rest, ¬ note.Calls action.id
  status : outcome.agent.status = outcome.value
  last : outcome.agent.statusOf action.id = result
  dropped : ∀ kept current, outcome.agent.currentAction? kept = some current →
    current.id ≠ action.id
  waiting : outcome.agent.NoneWaiting

variable {forest : List (Tree G)} {history : List Note} {agent : Agent G} {tree : Tree G}
  {action : Node G}

/-- A must-complete action that is still running has the update for itself. -/
theorem Composed.monopoly (hrules : rules.Modest) (hagent : agent.Composed rules forest history)
    (hpaused : agent.paused = false) (hbehavior : agent.behavior = some tree)
    (hpressing : agent.pressingAction? kept = some action)
    (hrunning : (action.execute rules (tree.inUse kept) elapsed agent.nextTick).value = .running) :
    let alone := action.execute rules (tree.inUse kept) elapsed agent.nextTick
    let outcome := Agent.update rules kept elapsed agent
    ∃ rest, outcome.notes = alone.notes ++ rest ∧ agent.Monopoly kept action rest outcome := by
  obtain ⟨hcurrent, -⟩ := pressing_action?_eq_some.1 hpressing
  obtain ⟨hheld, halive⟩ := current_action?_eq_some.1 hcurrent
  have hleaf := (hagent.attentive.held action hheld).1.2
  rw [update_pressing_running hpaused hbehavior hpressing hrunning]
  refine ⟨_, rfl, ?_⟩
  have hreach := action.execute_reach hrules (tree.inUse kept) elapsed (fun _ hmem => hmem)
    agent.nextTick
  have hstays := (Node.execute_leaf_run hrules (tree.inUse kept) elapsed hleaf
    agent.nextTick).stays_held (hagent.noneWaiting action.id) hheld hrunning
  refine ⟨by simp [Note.IsReport], rfl, rfl, ?_, ?_⟩
  · exact current_action?_eq_some.2
      ⟨hstays, (alive_congr hreach.stands.behavior kept action.id).trans halive⟩
  · intro id hid
    have hnot : id ∉ action.ids := Node.not_mem_ids_leaf hleaf hid
    exact ⟨hreach.spares.status_of_eq (Region.not_under (by simp [Slot.IsGame]) hnot),
      hreach.spares.resume_index_of_eq (Region.not_under (by simp [Slot.IsGame]) hnot),
      hreach.spares.timer_of_eq (Region.not_under (by simp [Slot.IsGame]) hnot),
      hreach.spares.exec_count_of_eq (Region.not_under (by simp [Slot.IsGame]) hnot)⟩

/-- Once a must-complete action has ended, the tree is passed through, and what is noted of
the action in the pass is at most that it hands its result over. -/
theorem Composed.hand_over (hrules : rules.Modest) (hdecided : rules.Decided)
    (hforest : Distinct forest) (hagent : agent.Composed rules forest history)
    (hpaused : agent.paused = false) (hbehavior : agent.behavior = some tree)
    (hpressing : agent.pressingAction? kept = some action)
    (hended : (action.execute rules (tree.inUse kept) elapsed agent.nextTick).value ≠ .running) :
    let alone := action.execute rules (tree.inUse kept) elapsed agent.nextTick
    let outcome := Agent.update rules kept elapsed agent
    ∃ rest, outcome.notes = alone.notes ++ rest ∧
      HandOver tree action alone.value rest outcome := by
  intro alone outcome
  have htree : tree ∈ forest := hagent.behavior tree hbehavior
  have hheld := (current_action?_eq_some.1 (pressing_action?_eq_some.1 hpressing).1).1
  have haction := (hagent.attentive.held action hheld).1
  have hlast : alone.agent.statusOf action.id = alone.value := action.status_of_execute _ _ _ _
  have hafter := update_composed hrules hforest.unambiguous kept elapsed agent history hagent
  -- The handed agent is the one that the pass starts from.
  let handed := alone.agent.withWaiting action.id alone.value
  let root := tree.toNode.execute rules (tree.inUse kept) elapsed handed
  have hleaf : ∀ other ∈ tree.toNode.preorder, other.id = action.id → other.family = .action := by
    intro other hother heq
    rw [hforest.unambiguous other (mem_forest_nodes htree hother) action haction.1 heq]
    exact haction.2
  obtain ⟨hstatus, hhands⟩ := tree.toNode.execute_hands hrules (tree.inUse kept) elapsed
    (hforest.tree htree) hleaf alone.value handed
    (alone.agent.waiting?_with_waiting_self action.id alone.value)
    ((alone.agent.status_of_with_waiting action.id action.id alone.value).trans hlast)
  obtain ⟨reached, hreached, hother⟩ := tree.toNode.execute_executions hrules (tree.inUse kept)
    elapsed (by simp [Tree.toNode, Node.family]) (hforest.tree htree) handed
  have houtcome : outcome = _ := update_pressing_ended hpaused hbehavior hpressing hended
  have hfinal : ∀ id, outcome.agent.statusOf id = root.agent.statusOf id := by
    intro id
    rw [houtcome]
    exact status_of_forget_of_slot_ne (root.agent.withStatus root.value) _ (by simp) id
  have hresult : outcome.agent.statusOf action.id = alone.value := (hfinal action.id).trans hstatus
  obtain ⟨first, last, hnotes⟩ : ∃ first last, outcome.notes =
      alone.notes ++ (.reported first :: (root.notes ++ [.reported last])) :=
    ⟨_, _, congrArg Outcome.notes houtcome⟩
  refine ⟨_, hnotes, {
    pass := ⟨reached, ?_, hother⟩
    handed := ?_
    uncalled := ?_
    status := ?_
    last := hresult
    dropped := ?_
    waiting := hafter.noneWaiting }⟩
  · rw [executions_reported, executions_append_reported, hreached, houtcome]
    rfl
  · rw [executions_reported, executions_append_reported, executions_filter]
    exact hhands.imp (fun h => congrArg executions h.1) fun h => congrArg executions h.1
  · intro note hnote
    simp only [List.mem_cons, List.mem_append, List.not_mem_nil, or_false] at hnote
    rcases hnote with rfl | hroot | rfl
    · exact id
    · exact not_calls_of_notes_about (hhands.imp And.left And.left) note hroot
    · exact id
  · rw [houtcome]
    rfl
  · -- The current action is running, and this one has ended.
    intro others current hcurrent heq
    have hrunning :=
      (hafter.attentive.held current (current_action?_eq_some.1 hcurrent).1).2.running
      hdecided
    rw [heq] at hrunning
    exact hended (hresult.symm.trans hrunning)

end Agent

/-- The current action of a reached agent, if it is a must-complete one, goes first in the
next update, once and without being entered. Then it either has the update for itself or
hands its result over. -/
theorem must_complete_goes_first (hrules : rules.Modest) (hdecided : rules.Decided)
    {forest : List (Tree G)} (hforest : Distinct forest) {history : List Note} {agent : Agent G}
    (hagent : agent.Reached rules forest history) {tree : Tree G} {action : Node G}
    (hpaused : agent.paused = false) (hbehavior : agent.behavior = some tree)
    (hcurrent : agent.currentAction? kept = some action) (hmust : action.mustComplete)
    (elapsed : Nat) :
    let alone := action.execute rules (tree.inUse kept) elapsed agent.nextTick
    let outcome := Agent.update rules kept elapsed agent
    ∃ rest, outcome.notes = alone.notes ++ rest ∧
      executions alone.notes = [(action.id, alone.value)] ∧
      .entered action.id ∉ alone.notes ∧
      (∀ note ∈ alone.notes, ∀ id ∈ note.node?, id = action.id) ∧
      (alone.value = .running → agent.Monopoly kept action rest outcome) ∧
      (alone.value ≠ .running → Agent.HandOver tree action alone.value rest outcome) := by
  intro alone outcome
  have hcomposed := hagent.composed hrules hforest.unambiguous
  have hpressing := Agent.pressing_action?_eq_some.2 ⟨hcurrent, hmust⟩
  have hheld := hcomposed.attentive.held action (Agent.current_action?_eq_some.1 hcurrent).1
  have hleaf := hheld.1.2
  obtain ⟨hexecutions, hentered⟩ := (Node.execute_leaf_run hrules (tree.inUse kept)
    elapsed hleaf agent.nextTick).alone (hcomposed.noneWaiting action.id)
    (hheld.2.running hdecided)
  -- A leaf has no identity at or below it but its own.
  have habout : ∀ note ∈ alone.notes, ∀ id ∈ note.node?, id = action.id := by
    intro note hnote id hid
    have hreach := action.execute_reach hrules (tree.inUse kept) elapsed (fun _ hmem => hmem)
      agent.nextTick
    simpa [Node.ids_leaf hleaf] using hreach.about note hnote id hid
  by_cases hrunning : alone.value = .running
  · obtain ⟨rest, hnotes, hmonopoly⟩ :=
      hcomposed.monopoly hrules hpaused hbehavior hpressing hrunning
    exact ⟨rest, hnotes, hexecutions, hentered, habout, fun _ => hmonopoly,
      fun hended => absurd hrunning hended⟩
  · obtain ⟨rest, hnotes, hhandOver⟩ :=
      hcomposed.hand_over hrules hdecided hforest hpaused hbehavior hpressing hrunning
    exact ⟨rest, hnotes, hexecutions, hentered, habout, fun hrun => absurd hrun hrunning,
      fun _ => hhandOver⟩

/-- A leaf that finishes on the second tick hands its result over. -/
theorem must_complete_goes_first_deadline :
    let run := clockedRun deadline soleTree [1]
    ∃ action, run.agent.currentAction? (fun _ => false) = some action ∧ action.mustComplete ∧
      ∃ rest, Agent.HandOver soleTree action .finished rest
        (Agent.update (Rules.clocked deadline) (fun _ => false) 2 run.agent) := by
  intro run
  have hcurrent : run.agent.currentAction? (fun _ => false) =
      some (.action ⟨⟨0⟩, none⟩ "Sole" true ()) := rfl
  refine ⟨_, hcurrent, rfl, ?_⟩
  obtain ⟨rest, -, -, -, -, -, hhandOver⟩ := must_complete_goes_first
    (Rules.clocked_modest deadline) deadline_decided sole_tree_distinct
    (clocked_run_reached deadline soleTree [1]) rfl rfl hcurrent rfl 2
  exact ⟨rest, hhandOver (by decide)⟩

end BehaviorTree
