import BehaviorTree.Proofs.Drift
import BehaviorTree.Proofs.Run

/-!
# The current action

The engine keeps the action that an agent is busy with and the table of last statuses in
step: an action that is held has neither finished nor failed, and its last status is the last
answer of its own logic (`Agent.Attentive`). Every execution preserves
this, also in the middle of an update, when the result of a must-complete action waits for
its parent; there it matters that a waiting result is the action's last status already.

Leaves that answer running, finished or failed are then running while they are held. A leaf
that answers anything else is neither held nor released by it, so it may stay the current
action with that answer as its status.
-/

namespace BehaviorTree

variable {G : Game} {rules : Rules G} {kept : NodeId → Bool} {elapsed : Nat}

/-! ## The last answer of an action -/

/-- The answer of an action's logic that a note tells. -/
def Note.answer? (id : NodeId) : Note → Option Status
  | acted other status => if other = id then some status else none
  | entered _ | tested _ _ _ | executed _ _ | reported _ => none

/-- The last answer of an action's logic. -/
def lastAnswer? (notes : List Note) (id : NodeId) : Option Status :=
  (notes.filterMap (Note.answer? id)).getLast?

/-- Notes that tell of no answer leave the last answer as it is. -/
theorem last_answer?_append_of_none {early late : List Note} {id : NodeId}
    (h : ∀ note ∈ late, note.answer? id = none) :
    lastAnswer? (early ++ late) id = lastAnswer? early id := by
  rw [lastAnswer?, List.filterMap_append, List.filterMap_eq_nil_iff.2 h, List.append_nil]
  rfl

/-- What comes before a node's logic tells of no answer of any leaf. -/
theorem Note.Precedes.answer?_eq_none {note : Note} {id : NodeId} (h : note.Precedes id)
    (other : NodeId) : note.answer? other = none := by
  cases note with
  | entered | tested | reported => rfl
  | acted | executed => exact h.elim

/-- What a leaf notes when its logic runs ends with its answer. -/
theorem last_answer?_ran {history notes : List Note} {id : NodeId} {status : Status}
    (h : ∀ note ∈ notes, note.Precedes id) :
    lastAnswer? (history ++ (notes ++ [.acted id status, .executed id status])) id =
      some status := by
  have hnone : notes.filterMap (Note.answer? id) = [] :=
    List.filterMap_eq_nil_iff.2 fun note hnote => (h note hnote).answer?_eq_none id
  simp [lastAnswer?, List.filterMap_append, List.filterMap_cons, hnone, Note.answer?]

/-- Of another action it tells nothing. -/
theorem last_answer?_ran_of_ne {history notes : List Note} {id other : NodeId} {status : Status}
    (h : ∀ note ∈ notes, note.Precedes id) (hne : other ≠ id) :
    lastAnswer? (history ++ (notes ++ [.acted id status, .executed id status])) other =
      lastAnswer? history other := by
  refine last_answer?_append_of_none fun note hnote => ?_
  simp only [List.mem_append, List.mem_cons, List.not_mem_nil, or_false] at hnote
  rcases hnote with hnote | rfl | rfl
  · exact (h note hnote).answer?_eq_none other
  · simp [Note.answer?, Ne.symm hne]
  · rfl

/-- What a gate asks tells of no answer of any leaf. -/
theorem Note.Asks.answer?_eq_none {note : Note} {id : NodeId} (h : note.Asks id)
    (other : NodeId) : note.answer? other = none := by
  cases note with
  | tested | reported => rfl
  | entered | acted | executed => exact h.elim

/-- An invariant that depends neither on positions and counts nor on the game, and that a
settled result of a node preserves, is served by the node. -/
theorem Passage.invariant_serves {holds : List Note → Agent G → Prop} {id : NodeId}
    (hasks : ∀ {history notes : List Note} {before after : Agent G}, holds history before →
      before.Stands after → before.Spares .progress after → (∀ note ∈ notes, note.Asks id) →
      holds (history ++ notes) after)
    (hconclude : ∀ {history : List Note} {agent : Agent G} (status : Status),
      holds history agent → holds (history ++ [.executed id status]) (agent.settle id status)) :
    (Passage.invariant holds).Serves id where
  toTends := Passage.tends_of_asks fun hstands hspares hnotes _ h => hasks h hstands hspares hnotes
  conclude _ status _ h := hconclude status h

/-! ## The invariant -/

/-- A node is an action of one of some trees. -/
def IsActionOf (forest : List (Tree G)) (node : Node G) : Prop :=
  node ∈ forestNodes forest ∧ node.family = .action

namespace Agent

/-- An action that has neither finished nor failed: its last status is the last answer of its
own logic, and where leaves are decided it is running. -/
structure Unended (rules : Rules G) (history : List Note) (agent : Agent G) (id : NodeId) :
    Prop where
  ne_finished : agent.statusOf id ≠ .finished
  ne_failed : agent.statusOf id ≠ .failed
  answer : lastAnswer? history id = some (agent.statusOf id)
  running : rules.Decided → agent.statusOf id = .running

/-- Whether an action has ended depends on its status and its last answer alone. -/
theorem Unended.congr {history later : List Note} {agent after : Agent G} {id : NodeId}
    (h : agent.Unended rules history id) (hstatus : after.statusOf id = agent.statusOf id)
    (hanswer : lastAnswer? later id = lastAnswer? history id) :
    after.Unended rules later id := by
  refine ⟨?_, ?_, ?_, ?_⟩
  · rw [hstatus]
    exact h.ne_finished
  · rw [hstatus]
    exact h.ne_failed
  · rw [hstatus, hanswer]
    exact h.answer
  · rw [hstatus]
    exact h.running

/-- The action that is held has not ended, and a result that waits is the last status of its
action. -/
structure Attentive (rules : Rules G) (forest : List (Tree G)) (history : List Note)
    (agent : Agent G) : Prop where
  held : ∀ action, agent.heldAction? = some action →
    IsActionOf forest action ∧ agent.Unended rules history action.id
  waiting : ∀ id status, agent.waiting? id = some status →
    agent.statusOf id = status ∧ ∃ action, IsActionOf forest action ∧ action.id = id

/-- Attention is a matter of the held action, the waiting results, the statuses of actions and their
last answers. -/
theorem Attentive.congr {forest : List (Tree G)} {history later : List Note}
    {agent after : Agent G} (h : agent.Attentive rules forest history)
    (hheld : after.heldAction? = agent.heldAction?)
    (hwaiting : ∀ id, after.waiting? id = agent.waiting? id)
    (hstatus : ∀ action, IsActionOf forest action →
      after.statusOf action.id = agent.statusOf action.id)
    (hanswer : ∀ id, lastAnswer? later id = lastAnswer? history id) :
    after.Attentive rules forest later where
  held action haction := by
    obtain ⟨hof, hunended⟩ := h.held action (hheld ▸ haction)
    exact ⟨hof, hunended.congr (hstatus action hof) (hanswer action.id)⟩
  waiting id status hid := by
    rw [hwaiting] at hid
    obtain ⟨hlast, action, hof, rfl⟩ := h.waiting id status hid
    exact ⟨(hstatus action hof).trans hlast, action, hof, rfl⟩

end Agent

/-- Composites and decorators preserve the invariant: no action carries their identity. -/
theorem Passage.attentive_serves {forest : List (Tree G)} (hforest : Unambiguous forest)
    {node : Node G} (hnode : node ∈ forestNodes forest) (hinner : node.family ≠ .action) :
    (Passage.invariant (Agent.Attentive rules forest)).Serves node.id := by
  have hne : ∀ action, IsActionOf forest action → action.id ≠ node.id := by
    intro action haction heq
    have hsame := hforest action haction.1 node hnode heq
    exact hinner (hsame ▸ haction.2)
  refine Passage.invariant_serves ?_ ?_
  · intro history notes before after h hstands hspares hnotes
    refine h.congr ?_ ?_ ?_ ?_
    · exact hspares.held_action?_eq hstands.entity (by simp [Region.progress, Slot.IsGame])
    · exact fun id => hspares.waiting?_eq (by simp [Region.progress, Slot.IsGame])
    · exact fun action _ => hspares.status_of_eq (by simp [Region.progress, Slot.IsGame])
    · exact fun id => last_answer?_append_of_none
        fun note hnote => (hnotes note hnote).answer?_eq_none id
  · intro history agent status h
    refine h.congr (agent.held_action?_settle node.id status)
      (fun id => agent.waiting?_settle node.id id status) ?_ ?_
    · exact fun action haction => agent.status_of_settle_of_ne status (hne action haction)
    · exact fun id => last_answer?_append_of_none (by simp [Note.answer?])

namespace Agent

/-- What is held after a result is followed up: the action itself if it is running, or what
was held before, which is the action itself only if its answer was undecided. -/
theorem held_action?_follow {agent : Agent G} {action held : Node G} {status : Status}
    (h : (agent.follow kept action status).heldAction? = some held) :
    held = action ∧ status = .running ∨
      agent.heldAction? = some held ∧ (held.id = action.id → ¬ status.IsDecided) := by
  cases status with
  | running =>
      rcases agent.held_action?_hold kept action with hself | ⟨other, hpinned, hstay⟩
      · rw [follow, hself] at h
        exact .inl ⟨(Option.some.inj h).symm, rfl⟩
      · rw [follow, hstay] at h
        have hother : other = held := Option.some.inj (hpinned.1.symm.trans h)
        exact .inr ⟨h, fun heq => absurd (hother ▸ heq) hpinned.2.1⟩
  | finished | failed =>
      rw [follow, held_action?_release, Option.filter_eq_some_iff] at h
      exact .inr ⟨h.1, fun heq => absurd heq (by simpa using h.2)⟩
  | unknown | canNotExecute => exact .inr ⟨h, fun _ => by simp [Status.IsDecided]⟩

end Agent

namespace Node

variable {forest : List (Tree G)} {node : Node G} {history : List Note} {agent : Agent G}
  {outcome : Outcome G Status}

/-- An action that claims its waiting result: the result is its last status already, so
settling it changes no status. -/
theorem attentive_claimed {status : Status} (hwaiting : agent.waiting? node.id = some status)
    (h : agent.Attentive rules forest history) :
    ((agent.forget .completed node.id.raw).settle node.id status).Attentive rules forest
      (history ++ [.executed node.id status]) := by
  have hlast := (h.waiting node.id status hwaiting).1
  have hsame : ∀ id, ((agent.forget .completed node.id.raw).settle node.id status).statusOf id =
      agent.statusOf id := by
    intro id
    by_cases hid : id = node.id
    · rw [hid, Agent.status_of_settle_self, hlast]
    · rw [Agent.status_of_settle_of_ne _ _ hid, Agent.status_of_forget_of_slot_ne _ _ (by simp)]
  have hanswer : ∀ id, lastAnswer? (history ++ [.executed node.id status]) id =
      lastAnswer? history id := fun id => last_answer?_append_of_none (by simp [Note.answer?])
  refine ⟨?_, ?_⟩
  · intro action haction
    rw [Agent.held_action?_settle, Agent.held_action?_forget_completed] at haction
    obtain ⟨hof, hunended⟩ := h.held action haction
    exact ⟨hof, hunended.congr (hsame action.id) (hanswer action.id)⟩
  · intro id other hid
    have hne : id ≠ node.id := by
      rintro rfl
      simp at hid
    rw [Agent.waiting?_settle, Agent.waiting?_forget_of_ne _ hne] at hid
    rw [hsame]
    exact h.waiting id other hid

/-- An action whose gate is closed: it is let go, and nothing else changes. -/
theorem attentive_blocked {near : Agent G} {notes : List Note}
    (hwaiting : agent.waiting? node.id = none) (hnear : node.Nears agent notes near)
    (h : agent.Attentive rules forest history) :
    ((near.release node.id).settle node.id .canNotExecute).Attentive rules forest
      (history ++ (notes ++ [.executed node.id .canNotExecute])) := by
  have hother : ∀ {id}, id ≠ node.id →
      ((near.release node.id).settle node.id .canNotExecute).statusOf id = agent.statusOf id := by
    intro id hne
    rw [Agent.status_of_settle_of_ne _ _ hne, Agent.status_of_release,
      hnear.touches.status_of_eq hne]
  refine ⟨?_, ?_⟩
  · intro action haction
    rw [Agent.held_action?_settle, Agent.held_action?_release, hnear.touches.held_action?_eq,
      Option.filter_eq_some_iff] at haction
    have hne : action.id ≠ node.id := by simpa using haction.2
    obtain ⟨hof, hunended⟩ := h.held action haction.1
    refine ⟨hof, hunended.congr (hother hne) (last_answer?_append_of_none fun note hnote => ?_)⟩
    rcases List.mem_append.1 hnote with hnote | hnote
    · exact (hnear.precede note hnote).answer?_eq_none action.id
    · rw [List.mem_singleton.1 hnote]
      rfl
  · intro id other hid
    rw [Agent.waiting?_settle, Agent.waiting?_release, hnear.touches.waiting?_eq] at hid
    have hne : id ≠ node.id := by
      rintro rfl
      simp [hwaiting] at hid
    rw [hother hne]
    exact h.waiting id other hid

/-- An action whose logic runs: if the action is held afterwards, then it has not ended. -/
theorem attentive_ran (hnode : IsActionOf forest node) {near : Agent G} {notes : List Note}
    {status : Status} (hwaiting : agent.waiting? node.id = none)
    (hnear : node.Nears agent notes near) (hdecided : rules.Decided → status.IsDecided)
    (h : agent.Attentive rules forest history) :
    ((near.follow kept node status).settle node.id status).Attentive rules forest
      (history ++ (notes ++ [.acted node.id status, .executed node.id status])) := by
  have hself : status ≠ .finished → status ≠ .failed → (rules.Decided → status = .running) →
      ((near.follow kept node status).settle node.id status).Unended rules
        (history ++ (notes ++ [.acted node.id status, .executed node.id status])) node.id := by
    intro hfinished hfailed hrunning
    refine ⟨?_, ?_, ?_, ?_⟩ <;> rw [Agent.status_of_settle_self]
    · exact hfinished
    · exact hfailed
    · exact last_answer?_ran hnear.precede
    · exact hrunning
  have hother : ∀ {id}, id ≠ node.id →
      ((near.follow kept node status).settle node.id status).statusOf id = agent.statusOf id := by
    intro id hne
    rw [Agent.status_of_settle_of_ne _ _ hne, Agent.status_of_follow,
      hnear.touches.status_of_eq hne]
  refine ⟨?_, ?_⟩
  · intro action haction
    rw [Agent.held_action?_settle] at haction
    rcases Agent.held_action?_follow haction with ⟨rfl, rfl⟩ | ⟨hheld, hundecided⟩
    · exact ⟨hnode, hself (by simp) (by simp) fun _ => rfl⟩
    · rw [hnear.touches.held_action?_eq] at hheld
      obtain ⟨hof, hunended⟩ := h.held action hheld
      by_cases hid : action.id = node.id
      · -- Only an undecided answer leaves the action held that it had been before.
        have hnot := hundecided hid
        rw [hid]
        exact ⟨hof, hself (fun heq => hnot (.inr (.inl heq))) (fun heq => hnot (.inr (.inr heq)))
          fun hrules => absurd (hdecided hrules) hnot⟩
      · exact ⟨hof, hunended.congr (hother hid) (last_answer?_ran_of_ne hnear.precede hid)⟩
  · intro id other hid
    rw [Agent.waiting?_settle, Agent.waiting?_follow, hnear.touches.waiting?_eq] at hid
    have hne : id ≠ node.id := by
      rintro rfl
      simp [hwaiting] at hid
    rw [hother hne]
    exact h.waiting id other hid

/-- The execution of an action preserves the invariant, whichever way it goes. -/
theorem LeafRun.attentive (hnode : IsActionOf forest node)
    (h : node.LeafRun rules kept agent outcome) (hagent : agent.Attentive rules forest history) :
    outcome.agent.Attentive rules forest (history ++ outcome.notes) := by
  cases h with
  | claimed hwaiting => exact attentive_claimed hwaiting hagent
  | blocked hwaiting hnear => exact attentive_blocked hwaiting hnear hagent
  | ran hwaiting hnear hdecided => exact attentive_ran hnode hwaiting hnear hdecided hagent

/-- Executing a node of the forest preserves the invariant. -/
theorem execute_attentive (hrules : rules.Modest) (hforest : Unambiguous forest)
    (kept : NodeId → Bool) (elapsed : Nat) (hnode : node ∈ forestNodes forest) :
    (node.execute rules kept elapsed).Keeps (.invariant (Agent.Attentive rules forest)) := by
  induction node using by_family with
  | inner node hinner ih =>
      exact execute_keeps hrules hinner (Passage.attentive_serves hforest hnode hinner)
        fun child hchild => ih child hchild (forest_nodes_trans hnode (child_mem_preorder hchild))
  | leaf node hleaf =>
      exact fun agent history hagent =>
        (execute_leaf_run hrules kept elapsed hleaf agent).attentive ⟨hnode, hleaf⟩ hagent

end Node

/-! ## Runs -/

/-- Between two updates nothing waits, and the tree of an agent comes from the forest. -/
structure Agent.Composed (rules : Rules G) (forest : List (Tree G)) (history : List Note)
    (agent : Agent G) : Prop where
  attentive : agent.Attentive rules forest history
  noneWaiting : agent.NoneWaiting
  behavior : ∀ tree ∈ agent.behavior, tree ∈ forest

namespace Agent

variable {forest : List (Tree G)} {history later : List Note} {agent after : Agent G}

/-- Changes outside the context that attach no foreign tree preserve the invariant. -/
theorem Composed.congr (h : agent.Composed rules forest history)
    (hcontext : after.context = agent.context) (hentity : after.entity = agent.entity)
    (hbehavior : ∀ tree ∈ after.behavior, tree ∈ forest)
    (hnotes : ∀ note ∈ later, note.IsReport) :
    after.Composed rules forest (history ++ later) where
  attentive := by
    have hspares : agent.Spares (fun _ _ => False) after := fun slot key _ => by rw [hcontext]
    refine h.attentive.congr (hspares.held_action?_eq hentity id)
      (fun other => hspares.waiting?_eq id) (fun action _ => hspares.status_of_eq id) ?_
    exact fun other => last_answer?_append_of_none fun note hnote =>
      ((hnotes note hnote).precedes other).answer?_eq_none other
  noneWaiting other := by
    rw [waiting?, hcontext]
    exact h.noneWaiting other
  behavior := hbehavior

/-- A report changes nothing about an agent that is composed. -/
theorem Composed.with_report (h : agent.Composed rules forest history) (diagnostic : Diagnostic) :
    agent.Composed rules forest (history ++ [.reported diagnostic]) :=
  h.congr rfl rfl h.behavior (by simp [Note.IsReport])

/-- The status that an update stores for the agent leaves it composed. -/
theorem Composed.with_status (h : agent.Composed rules forest history) (status : Status) :
    (agent.withStatus status).Composed rules forest history := by
  have hsame : (agent.withStatus status).Composed rules forest (history ++ []) :=
    h.congr rfl rfl h.behavior (by simp)
  rwa [List.append_nil] at hsame

/-- The beginning of a tick leaves an agent composed. -/
theorem Composed.next_tick (h : agent.Composed rules forest history) :
    agent.nextTick.Composed rules forest history := by
  have hsame : agent.nextTick.Composed rules forest (history ++ []) :=
    h.congr rfl rfl h.behavior (by simp)
  rwa [List.append_nil] at hsame

/-- The current action is the one that is held, as long as it is alive. -/
theorem current_action?_eq_some {action : Node G} :
    agent.currentAction? kept = some action ↔
      agent.heldAction? = some action ∧ agent.alive kept action.id := by
  simp [currentAction?, Option.filter_eq_some_iff]

/-- The action that goes first is the current one, if it is must-complete. -/
theorem pressing_action?_eq_some {action : Node G} :
    agent.pressingAction? kept = some action ↔
      agent.currentAction? kept = some action ∧ action.mustComplete := by
  simp [pressingAction?, Option.filter_eq_some_iff]

/-- An execution of any node of the forest leaves an agent composed. -/
theorem execute_composed (hrules : rules.Modest) (hforest : Unambiguous forest)
    (kept : NodeId → Bool) (elapsed : Nat) {node : Node G} (hnode : node ∈ forestNodes forest) :
    (node.execute rules kept elapsed).Keeps (.invariant (Composed rules forest)) := by
  intro agent history h
  have hattentive := Node.execute_attentive hrules hforest kept elapsed hnode agent history
    h.attentive
  refine ⟨hattentive, ?_, ?_⟩
  · exact fun id => Drift.execute_unwaited hrules kept elapsed node agent id (h.noneWaiting id)
  · rw [(Node.execute_reach hrules kept elapsed node (fun _ hid => hid) agent).stands.behavior]
    exact h.behavior

/-- The result of an action that ended waits for its parent: it is the action's last status. -/
theorem Composed.with_waiting (h : agent.Composed rules forest history) {action : Node G}
    (haction : IsActionOf forest action) :
    (agent.withWaiting action.id (agent.statusOf action.id)).Attentive rules forest
      history := by
  have hstatus : ∀ id, (agent.withWaiting action.id (agent.statusOf action.id)).statusOf id =
      agent.statusOf id := fun id => agent.status_of_with_waiting action.id id _
  refine ⟨?_, ?_⟩
  · intro held hheld
    rw [held_action?_with_waiting] at hheld
    obtain ⟨hof, hunended⟩ := h.attentive.held held hheld
    exact ⟨hof, hunended.congr (hstatus held.id) rfl⟩
  · intro id status hid
    rw [hstatus]
    by_cases hself : id = action.id
    · subst hself
      rw [waiting?_with_waiting_self] at hid
      exact ⟨Option.some.inj hid, action, haction, rfl⟩
    · rw [waiting?_with_waiting_of_ne _ _ hself, h.noneWaiting id] at hid
      cases hid

/-- A result that was not claimed is dropped. -/
theorem Attentive.drop_waiting (h : agent.Attentive rules forest history) (id : NodeId) :
    (agent.forget .completed id.raw).Attentive rules forest history := by
  have hstatus : ∀ other, (agent.forget .completed id.raw).statusOf other =
      agent.statusOf other := fun other => agent.status_of_forget_of_slot_ne _ (by simp) other
  refine ⟨?_, ?_⟩
  · intro held hheld
    rw [held_action?_forget_completed] at hheld
    obtain ⟨hof, hunended⟩ := h.held held hheld
    exact ⟨hof, hunended.congr (hstatus held.id) rfl⟩
  · intro other status hother
    have hne : other ≠ id := by
      rintro rfl
      simp at hother
    rw [waiting?_forget_of_ne _ hne] at hother
    rw [hstatus]
    exact h.waiting other status hother

/-- The pass that follows the end of a must-complete action leaves no result waiting. -/
theorem Composed.pass_after (hrules : rules.Modest) (hforest : Unambiguous forest)
    {alone : Outcome G Status} (h : alone.agent.Composed rules forest history)
    {action : Node G} (haction : IsActionOf forest action)
    (hlast : alone.agent.statusOf action.id = alone.value) {tree : Tree G}
    (htree : tree.toNode ∈ forestNodes forest) (kept : NodeId → Bool) (elapsed : Nat) :
    let handed := alone.agent.withWaiting action.id alone.value
    let root := tree.toNode.execute rules kept elapsed handed
    (root.agent.forget .completed action.id.raw).Composed rules forest
      (history ++ root.notes) := by
  intro handed root
  have hhanded : handed.Attentive rules forest history := by
    show (alone.agent.withWaiting action.id alone.value).Attentive rules forest history
    rw [← hlast]
    exact h.with_waiting haction
  have hstands := (tree.toNode.execute_reach hrules kept elapsed (fun _ hid => hid) handed).stands
  refine ⟨?_, fun id => ?_, fun tree htree => h.behavior tree (hstands.behavior ▸ htree)⟩
  · exact (Node.execute_attentive hrules hforest kept elapsed htree _ history
      hhanded).drop_waiting _
  · by_cases hself : id = action.id
    · rw [hself, waiting?_forget_self]
    · rw [waiting?_forget_of_ne _ hself]
      have hnone := (alone.agent.waiting?_with_waiting_of_ne alone.value hself).trans
        (h.noneWaiting id)
      exact Drift.execute_unwaited hrules kept elapsed tree.toNode _ id hnone

/-- An update preserves the invariant, whichever course it takes. -/
theorem update_composed (hrules : rules.Modest) (hforest : Unambiguous forest)
    (kept : NodeId → Bool) (elapsed : Nat) :
    (Agent.update rules kept elapsed).Keeps (.invariant (Composed rules forest)) := by
  intro agent history h
  by_cases hidle : agent.paused = true ∨ agent.behavior = none
  · rw [update_idle hidle]
    simpa using h
  have hpaused : agent.paused = false := by simpa using fun hp => hidle (.inl hp)
  obtain ⟨tree, hbehavior⟩ := Option.ne_none_iff_exists'.1 fun hb => hidle (.inr hb)
  have htree : tree.toNode ∈ forestNodes forest :=
    mem_forest_nodes (h.behavior tree hbehavior) tree.toNode.self_mem_preorder
  cases hpressing : agent.pressingAction? kept with
  | none =>
      have hroot := execute_composed hrules hforest (tree.inUse kept) elapsed htree _ history
        h.next_tick
      rw [update_free hpaused hbehavior hpressing]
      simp only [← List.append_assoc]
      exact (hroot.with_status _).with_report _
  | some action =>
      have hheld := (current_action?_eq_some.1 (pressing_action?_eq_some.1 hpressing).1).1
      have haction := (h.attentive.held action hheld).1
      have halone := execute_composed hrules hforest (tree.inUse kept) elapsed haction.1 _ history
        h.next_tick
      by_cases hrunning :
          (action.execute rules (tree.inUse kept) elapsed agent.nextTick).value = .running
      · rw [update_pressing_running hpaused hbehavior hpressing hrunning]
        simp only [← List.append_assoc]
        exact (halone.with_status _).with_report _
      -- The pass starts from an agent with the result of the action waiting, which the report
      -- leaves alone.
      · rw [update_pressing_ended hpaused hbehavior hpressing hrunning]
        have hlast := action.status_of_execute rules (tree.inUse kept) elapsed agent.nextTick
        generalize action.execute rules (tree.inUse kept) elapsed agent.nextTick = alone at *
        have hreported := halone.with_report (alone.agent.actionTicked action.id alone.value)
        have hended := hreported.pass_after hrules hforest haction hlast htree (tree.inUse kept)
          elapsed
        have hfinal := (hended.with_status (tree.toNode.execute rules (tree.inUse kept) elapsed
          (alone.agent.withWaiting action.id alone.value)).value).with_report
        simp only [List.append_assoc, List.cons_append, List.nil_append] at hfinal
        exact hfinal _

end Agent

namespace Command

variable {forest : List (Tree G)}

/-- Every command preserves the invariant. -/
theorem play_composed (hrules : rules.Modest) (hforest : Unambiguous forest)
    {command : Command G} (hcommand : command.Within forest) :
    (command.play rules).Keeps (.invariant (Agent.Composed rules forest)) := by
  cases command with
  | update kept elapsed =>
      intro agent history h
      rw [play, Play.map_apply]
      exact Agent.update_composed hrules hforest kept elapsed agent history h
  | setBehavior kept tree =>
      intro agent history h
      obtain ⟨hagent, hnotes⟩ := Agent.set_behavior_apply kept tree agent
      rw [play, Play.map_apply, hagent]
      refine h.congr rfl rfl (fun other hother => ?_) hnotes
      exact Option.some.inj hother ▸ hcommand
  | takeBehavior =>
      intro agent history h
      refine h.congr rfl rfl ?_ ?_
      · simp [play, Agent.takeBehavior]
      · simp [play, Agent.takeBehavior]
  | setSelection selection =>
      intro agent history h
      exact h.congr rfl rfl h.behavior (by simp [play])
  | setPaused paused =>
      intro agent history h
      exact h.congr rfl rfl h.behavior (by simp [play])

end Command

/-- A fresh agent holds nothing and nothing waits for it. -/
theorem Agent.fresh_composed (entity : EntityId) :
    (Agent.fresh (G := G) entity).Composed rules forest [] :=
  ⟨⟨by simp [Agent.fresh, Agent.heldAction?], by simp [Agent.fresh, Agent.waiting?]⟩,
    fun _ => rfl, by simp [Agent.fresh]⟩

/-- The invariant holds of every agent that is reached. -/
theorem Agent.Reached.composed {forest : List (Tree G)} {history : List Note} {agent : Agent G}
    (hagent : agent.Reached rules forest history) (hrules : rules.Modest)
    (hforest : Unambiguous forest) : agent.Composed rules forest history := by
  obtain ⟨entity, commands, hcommands, rfl, rfl⟩ := hagent
  exact Command.play_all_keeps
    (fun command h => Command.play_composed hrules hforest (hcommands command h))
    (Agent.fresh entity) [] (Agent.fresh_composed entity)

/-- Whatever is done with a new agent, its current action has neither finished nor failed: the
action's last status is the last answer of its own logic, and running where leaves are
decided. The same goes for the action that the next update would execute outside the tree. -/
theorem current_action_unended (hrules : rules.Modest) {forest : List (Tree G)}
    (hforest : Unambiguous forest) {history : List Note} {agent : Agent G}
    (hagent : agent.Reached rules forest history) (kept : NodeId → Bool) (action : Node G) :
    (agent.currentAction? kept = some action → agent.Unended rules history action.id) ∧
      (agent.pressingAction? kept = some action → agent.Unended rules history action.id) := by
  have hattentive := (hagent.composed hrules hforest).attentive
  have hcurrent : agent.currentAction? kept = some action →
      agent.Unended rules history action.id := by
    intro h
    exact (hattentive.held action (Agent.current_action?_eq_some.1 h).1).2
  exact ⟨hcurrent, fun h => hcurrent (Agent.pressing_action?_eq_some.1 h).1⟩

/-! ### A leaf that is undecided -/

/-- A leaf that runs on the shortest ticks and gives no answer on longer ones. -/
def undecided (_ : Unit) (elapsed : Nat) : Status := if elapsed ≤ 1 then .running else .unknown

/-- The invariant at an agent whose leaf is running. -/
theorem current_action_unended_undecided :
    let run := clockedRun undecided soleTree [1]
    ∃ action, run.agent.currentAction? (fun _ => false) = some action ∧
      run.agent.Unended (Rules.clocked undecided) run.notes action.id := by
  intro run
  refine ⟨.action ⟨⟨0⟩, none⟩ "Sole" true (), rfl, ?_⟩
  exact (current_action_unended (Rules.clocked_modest undecided) sole_tree_distinct.unambiguous
    (clocked_run_reached undecided soleTree [1]) (fun _ => false) _).1 rfl

/-- An action whose logic ran and then gave no answer stays the current one, and the next
update executes it outside the tree. -/
theorem undecided_stays_current :
    let run := clockedRun undecided soleTree [1, 2]
    ∃ action, run.agent.currentAction? (fun _ => false) = some action ∧
      run.agent.pressingAction? (fun _ => false) = some action ∧
      run.agent.statusOf action.id ≠ .running :=
  ⟨.action ⟨⟨0⟩, none⟩ "Sole" true (), rfl, rfl, by decide⟩

end BehaviorTree
