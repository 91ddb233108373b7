import BehaviorTree.Proofs.Execution

/-!
# What the execution of a leaf is

`Node.execute_leaf_run` lists the three ways in which the execution of a leaf goes, with the
agent and the notes that come of each. Later modules take leaves apart by these three cases
and unfold no definition.
-/

namespace BehaviorTree

variable {G : Game} {rules : Rules G} {kept : NodeId → Bool} {elapsed : Nat}

/-- Whether a note may come before the logic of a leaf runs. -/
def Note.Precedes (id : NodeId) : Note → Prop
  | .entered other | .tested other _ _ => other = id
  | .reported _ => True
  | .acted _ _ | .executed _ _ => False

/-- Reports may come before the logic of a leaf. -/
theorem Note.IsReport.precedes {note : Note} (h : note.IsReport) (id : NodeId) :
    note.Precedes id := by
  cases note with
  | reported => trivial
  | entered | acted | tested | executed => exact h.elim

/-- What an agent does at a leaf until the leaf's result is followed up. -/
structure Node.Nears (node : Node G) (before : Agent G) (notes : List Note) (after : Agent G) :
    Prop where
  touches : before.Touches (.ofLeaf node.id) after
  precede : ∀ note ∈ notes, note.Precedes node.id
  entered : Note.entered node.id ∈ notes ↔ before.statusOf node.id ≠ .running

/-- The three ways in which the execution of a leaf goes: a waiting result is claimed, or a
closed gate blocks the leaf, or its logic runs and gives a status. -/
inductive Node.LeafRun (rules : Rules G) (kept : NodeId → Bool) (node : Node G)
    (agent : Agent G) : Outcome G Status → Prop where
  | claimed {status : Status} (hwaiting : agent.waiting? node.id = some status) :
      LeafRun rules kept node agent
        ⟨status, (agent.forget .completed node.id.raw).settle node.id status,
          [.executed node.id status]⟩
  | blocked {near : Agent G} {notes : List Note} (hwaiting : agent.waiting? node.id = none)
      (hnear : node.Nears agent notes near) :
      LeafRun rules kept node agent
        ⟨.canNotExecute, (near.release node.id).settle node.id .canNotExecute,
          notes ++ [.executed node.id .canNotExecute]⟩
  | ran {near : Agent G} {notes : List Note} {status : Status}
      (hwaiting : agent.waiting? node.id = none) (hnear : node.Nears agent notes near)
      (hdecided : rules.Decided → status.IsDecided) :
      LeafRun rules kept node agent
        ⟨status, (near.follow kept node status).settle node.id status,
          notes ++ [.acted node.id status, .executed node.id status]⟩

/-- Doings that come before the logic of a leaf runs. -/
def Passage.prelude (id : NodeId) : Passage G where
  allows before notes after :=
    before.Touches (.ofLeaf id) after ∧ ∀ note ∈ notes, note.Precedes id
  stay agent := ⟨.refl agent, by simp⟩
  join hfirst hsecond := by
    refine ⟨hfirst.1.trans hsecond.1, fun note hnote => ?_⟩
    rcases List.mem_append.1 hnote with hnote | hnote
    · exact hfirst.2 note hnote
    · exact hsecond.2 note hnote

/-- Gates do not go beyond what may come before the logic of a leaf. -/
theorem Passage.prelude_gates (id : NodeId) : (Passage.prelude (G := G) id).Gates id where
  quiet htouches hnotes := ⟨htouches.of_game id, fun note hnote => (hnotes note hnote).precedes id⟩
  tested agent name holds := ⟨.refl agent, by simp [Note.Precedes]⟩

/-- Doings that do not enter a node. -/
def Passage.notEntering (id : NodeId) : Passage G where
  allows _ notes _ := Note.entered id ∉ notes
  stay _ := by simp
  join hfirst hsecond := by simp [hfirst, hsecond]

/-- Gates enter no node. -/
theorem Passage.not_entering_gates (id : NodeId) :
    (Passage.notEntering (G := G) id).Gates id where
  quiet _ hnotes := fun hmem => hnotes _ hmem
  tested agent name holds := by simp [Passage.notEntering]

namespace Node

/-- What a leaf does on a fresh entry touches only what is the leaf's, and ends with the note
of the entry. -/
theorem entry_leaf (hrules : rules.Modest) {node : Node G} (hleaf : node.family = .action)
    (agent : Agent G) :
    ∃ notes, (node.entry rules agent).notes = notes ++ [.entered node.id] ∧
      (∀ note ∈ notes, note.IsReport) ∧
      agent.Touches (.ofLeaf node.id) (node.entry rules agent).agent := by
  cases node with
  | composite | decorator => simp [family] at hleaf
  | timed head duration mustComplete =>
      exact ⟨[], rfl, by simp,
        agent.touches_remember _ .timer Timer.unarmed (.inr ⟨trivial, rfl⟩)⟩
  | action head name mustComplete leaf =>
      obtain ⟨htouches, hnotes⟩ := hrules.enter leaf head.id agent
      exact ⟨_, rfl, hnotes, htouches⟩

/-- The logic of a leaf touches only what is the leaf's, and ends with the note of its
answer. -/
theorem logic_leaf (hrules : rules.Modest) {node : Node G} (hleaf : node.family = .action)
    (kept : NodeId → Bool) (elapsed : Nat) (agent : Agent G) :
    ∃ status near notes,
      node.logic rules kept elapsed agent = ⟨status, near, notes ++ [.acted node.id status]⟩ ∧
        (∀ note ∈ notes, note.IsReport) ∧ agent.Touches (.ofLeaf node.id) near ∧
        (rules.Decided → status.IsDecided) := by
  cases node with
  | composite | decorator => simp [family] at hleaf
  | timed head duration mustComplete =>
      let timer := tickTimer duration elapsed (agent.timerOf head.id)
      let status : Status := if timer.phase = .expired then .finished else .running
      refine ⟨status, agent.remember .timer head.id.raw timer, [], rfl, by simp,
        agent.touches_remember _ .timer timer (.inr ⟨trivial, rfl⟩), fun _ => ?_⟩
      by_cases hexpired : timer.phase = .expired
      · exact .inr (.inl (if_pos hexpired))
      · exact .inl (if_neg hexpired)
  | action head name mustComplete leaf =>
      obtain ⟨htouches, hnotes⟩ := hrules.act leaf head.id elapsed agent
      exact ⟨_, _, _, by simp [logic, id, Node.head], hnotes, htouches,
        fun hdecided => hdecided leaf head.id elapsed agent⟩

/-- What an agent does up to the logic of a leaf touches no more than a leaf may. -/
theorem approach_leaf (hrules : rules.Modest) {node : Node G} (hleaf : node.family = .action)
    (agent : Agent G) :
    node.Nears agent (node.approach rules agent).notes (node.approach rules agent).agent := by
  obtain ⟨notes, hnotes, hreports, htouches⟩ := entry_leaf hrules hleaf agent
  have hgate := node.open_keeps hrules (Passage.prelude_gates node.id)
  have hentered := node.open_keeps hrules (Passage.not_entering_gates node.id)
  by_cases hrunning : agent.statusOf node.id = .running
  · have happroach : node.approach rules agent = node.open rules agent := by
      simp [approach, freshen, hrunning]
    rw [happroach]
    refine ⟨(hgate agent).1, (hgate agent).2, ?_⟩
    exact iff_of_false (hentered agent) (not_not.2 hrunning)
  · have happroach : node.approach rules agent =
        (node.entry rules >>= fun _ => node.open rules) agent := by
      simp [approach, freshen, hrunning]
    have hmem : ∀ note ∈ notes ++ [Note.entered node.id], note.Precedes node.id := by
      intro note hnote
      rcases List.mem_append.1 hnote with hnote | hnote
      · exact (hreports note hnote).precedes node.id
      · rw [List.mem_singleton.1 hnote]
        rfl
    rw [happroach, Play.bind_apply, hnotes]
    refine ⟨htouches.trans (hgate _).1, fun note hnote => ?_, by simp [hrunning]⟩
    rcases List.mem_append.1 hnote with hnote | hnote
    · exact hmem note hnote
    · exact (hgate _).2 note hnote

/-- The execution of a leaf goes in one of the three ways. -/
theorem execute_leaf_run (hrules : rules.Modest) (kept : NodeId → Bool) (elapsed : Nat)
    {node : Node G} (hleaf : node.family = .action) (agent : Agent G) :
    LeafRun rules kept node agent (node.execute rules kept elapsed agent) := by
  rw [execute_leaf hleaf]
  cases hwaiting : agent.waiting? node.id with
  | some status => exact .claimed hwaiting
  | none =>
      have hnear := approach_leaf hrules hleaf agent
      cases hopen : (node.approach rules agent).value with
      | false =>
          simp only [visit_closed hopen, hleaf, ↓reduceIte]
          exact .blocked hwaiting hnear
      | true =>
          obtain ⟨status, near, notes, hlogic, hreports, htouches, hdecided⟩ :=
            logic_leaf hrules hleaf kept elapsed (node.approach rules agent).agent
          have hfar : node.Nears agent ((node.approach rules agent).notes ++ notes) near := by
            refine ⟨hnear.touches.trans htouches, fun note hnote => ?_, ?_⟩
            · rcases List.mem_append.1 hnote with hnote | hnote
              · exact hnear.precede note hnote
              · exact (hreports note hnote).precedes node.id
            · rw [← hnear.entered, List.mem_append]
              exact or_iff_left fun hmem => hreports _ hmem
          simp only [visit_open hopen, hlogic, Play.change_apply, List.nil_append]
          simpa using LeafRun.ran hwaiting hfar hdecided

/-- The execution of a leaf makes no result wait. -/
theorem LeafRun.waiting?_eq_none {node : Node G} {agent : Agent G} {outcome : Outcome G Status}
    (h : node.LeafRun rules kept agent outcome) {id : NodeId} (hnone : agent.waiting? id = none) :
    outcome.agent.waiting? id = none := by
  cases h with
  | claimed hwaiting =>
      have hne : id ≠ node.id := by
        rintro rfl
        simp [hnone] at hwaiting
      rw [Agent.waiting?_settle, Agent.waiting?_forget_of_ne _ hne, hnone]
  | blocked hwaiting hnear =>
      rw [Agent.waiting?_settle, Agent.waiting?_release, hnear.touches.waiting?_eq, hnone]
  | ran hwaiting hnear hdecided =>
      rw [Agent.waiting?_settle, Agent.waiting?_follow, hnear.touches.waiting?_eq, hnone]

end Node

end BehaviorTree
