import BehaviorTree.Proofs.Chronicle
import BehaviorTree.Proofs.Likeness

/-!
# The fast path

A running must-complete action is executed on its own, and only when it stops does the tree
get its turn. For trees that go through their children one at a time and have gates at leaves
only this makes no difference to what one sees (`fast_path_agrees`): with the flags taken away,
the walk through the tree comes straight to the running action, since every node above it is
running and stands at the way down (`Node.Tracked.ascend`).

If the action is still running, so is every node above it after the walk
(`Node.Pressed.alone_running`). If it stopped, the pass through the tree that follows claims its
result where the walk would execute it, and both go on from there (`Node.Pressed.alone_ended`).
-/

namespace BehaviorTree

variable {G : Game} {rules : Rules G} {kept kept' : NodeId → Bool} {elapsed : Nat}

/-! ## Serial trees -/

namespace Node

/-- A leaf, or a node without a gate that goes through its children one at a time as long as
it is executed: no parallel and no limit. -/
def IsSerial : Node G → Prop
  | composite head kind _ => head.gate = none ∧ kind ≠ .parallel
  | decorator head kind _ => head.gate = none ∧ ∀ bound, kind ≠ .limit bound
  | timed _ _ _ | action _ _ _ _ => True

/-- Every node at or below a node is serial. -/
def Serial (node : Node G) : Prop := ∀ other ∈ node.preorder, other.IsSerial

/-- A serial node has no gate that could keep an execution from what is below. -/
theorem IsSerial.unbarred {node : Node G} (h : node.IsSerial) : node.Unbarred := by
  cases node with
  | composite => exact h.1
  | decorator => exact h
  | timed | action => trivial

/-! ## Standing nodes -/

/-- What a node does once the child at an index has come out with a status. -/
def proceed (rules : Rules G) (kept : NodeId → Bool) (elapsed index : Nat) (status : Status) :
    Node G → Play G Status
  | composite head kind children =>
      match kind.advance? with
      | some advance =>
          (if status = advance then
            walk rules kept elapsed advance 0 (index + 1) (children.drop (index + 1))
          else pure (some (index, status))) >>= settleWalk head.id advance
      | none => pure status
  | node@(decorator _ kind _) => node.answerChild kind (some status)
  | timed _ _ _ | action _ _ _ _ => pure status

/-- A walk that passes over the children before an index executes the one there first. -/
theorem walk_at (advance : Status) {children : List (Node G)} {index : Nat} {child : Node G}
    (h : children[index]? = some child) (start : Nat) :
    walk rules kept elapsed advance index start children = (do
      let status ← child.execute rules kept elapsed
      if status = advance then
        walk rules kept elapsed advance 0 (start + index + 1) (children.drop (index + 1))
      else pure (some (start + index, status))) := by
  induction children generalizing index start with
  | nil => simp at h
  | cons first rest ih =>
      cases index with
      | zero =>
          obtain rfl := Option.some.inj h
          rfl
      | succ index =>
          rw [walk, ih h (start + 1), List.drop_succ_cons, Nat.add_right_comm start 1 index]
          rfl

/-- The logic of a node that stands at a child executes the child first. -/
theorem logic_at {node : Node G} (hserial : node.IsSerial) {index : Nat} {child : Node G}
    (hchild : node.children[index]? = some child) {agent : Agent G}
    (hstands : node.StandsAt index agent) :
    node.logic rules kept elapsed agent = (do
      let status ← child.execute rules kept elapsed
      node.proceed rules kept elapsed index status) agent := by
  cases node with
  | composite head kind children =>
      obtain ⟨advance, hkind⟩ : ∃ advance, kind.advance? = some advance := by
        cases kind with
        | sequence | priority => exact ⟨_, rfl⟩
        | parallel => exact absurd rfl hserial.2
      have hposition : agent.position? head.id = some index := hstands.2 (by simp [Walks, hkind])
      have hwalk : (composite head kind children).logic rules kept elapsed agent = (do
          let stop ← walk rules kept elapsed advance index 0 children
          settleWalk head.id advance stop) agent := by
        rw [logic_walk hkind, Agent.resume_index_of_eq, hposition]
        rfl
      have hplace : children[index]? = some child := hchild
      rw [hwalk, walk_at advance hplace, bind_assoc]
      simp only [proceed, hkind, Nat.zero_add]
  -- A serial decorator is no limit, so nothing keeps it from its child.
  | decorator head kind below =>
      have hunspent : (spent head.id kind agent).value = false :=
        Bool.eq_false_iff.2 (hserial.unbarred.not_spent agent)
      cases below with
      | none => simp [children] at hchild
      | some only =>
          cases index with
          | succ index => simp [children] at hchild
          | zero =>
              obtain rfl := Option.some.inj hchild
              rw [logic_unspent hunspent]
              simp [executeChild, proceed]
  | timed | action => simp [children] at hchild

/-- So does its execution: nothing comes before the child. -/
theorem execute_at {node : Node G} (hserial : node.IsSerial) {index : Nat} {child : Node G}
    (hchild : node.children[index]? = some child) {agent : Agent G}
    (hstands : node.StandsAt index agent) :
    node.execute rules kept elapsed agent = (do
      let status ← child.execute rules kept elapsed
      let result ← node.proceed rules kept elapsed index status
      node.conclude result) agent := by
  have hinner : node.family ≠ .action := by
    intro hleaf
    simp [children_leaf hleaf] at hchild
  have happroach : node.approach rules agent = ⟨true, agent, []⟩ :=
    approach_of_running (hserial.unbarred.gate_eq_none hinner) hstands.1
  rw [execute_inner_open hinner (by rw [happroach]), ← bind_assoc, Play.bind_apply]
  simp only [happroach, logic_at hserial hchild hstands]
  simp [conclude]

/-- A child that is running makes a serial node running, at that child. -/
theorem proceed_running (rules : Rules G) (kept : NodeId → Bool) (elapsed : Nat) {node : Node G}
    (hserial : node.IsSerial) (index : Nat) (agent : Agent G) :
    ∃ after, node.proceed rules kept elapsed index .running agent = ⟨.running, after, []⟩ ∧
      (after = agent ∨
        node.Walks ∧ after = agent.remember .resumeIndex node.id.raw (index : Nat)) := by
  cases node with
  | composite head kind children =>
      cases kind with
      | sequence | priority => exact ⟨_, rfl, .inr ⟨by simp [Walks, CompositeKind.advance?], rfl⟩⟩
      | parallel => exact absurd rfl hserial.2
  | decorator head kind child =>
      refine ⟨agent, ?_, .inl rfl⟩
      cases kind with
      | limit bound => exact absurd rfl (hserial.2 bound)
      | _ => rfl
  | timed | action => exact ⟨agent, rfl, .inl rfl⟩

/-- The execution of a serial node that stands at a child which is running. -/
theorem execute_at_running {node : Node G} (hserial : node.IsSerial) {index : Nat}
    {child : Node G} (hchild : node.children[index]? = some child) {agent : Agent G}
    (hstands : node.StandsAt index agent)
    (hrunning : (child.execute rules kept elapsed agent).value = .running) :
    let below := child.execute rules kept elapsed agent
    ∃ after, node.execute rules kept elapsed agent =
        ⟨.running, after.settle node.id .running, below.notes ++ [.executed node.id .running]⟩ ∧
      (after = below.agent ∨
        node.Walks ∧ after = below.agent.remember .resumeIndex node.id.raw (index : Nat)) := by
  obtain ⟨after, hproceed, hafter⟩ := proceed_running rules kept elapsed hserial index
    (child.execute rules kept elapsed agent).agent
  refine ⟨after, ?_, hafter⟩
  rw [execute_at hserial hchild hstands, Play.bind_apply, hrunning, Play.bind_apply, hproceed]
  simp [conclude]

/-- What follows the result of a child matches what follows it without flags. -/
theorem proceed_matches (hrules : rules.Modest) (hblind : rules.Blind) (node : Node G)
    (kept kept' : NodeId → Bool) (elapsed index : Nat) (status : Status) :
    (node.proceed rules kept elapsed index status).Matches
      (node.relaxed.proceed rules kept' elapsed index status) := by
  cases node with
  | composite head kind children =>
      rw [relaxed_composite, proceed, proceed]
      cases kind.advance? with
      | none => exact Play.matches_pure status
      | some advance =>
          rw [← List.map_drop]
          have hrest : (walk rules kept elapsed advance 0 (index + 1)
              (children.drop (index + 1))).Matches (walk rules kept' elapsed advance 0 (index + 1)
                ((children.drop (index + 1)).map relaxed)) :=
            walk_matches advance
              (fun child _ => execute_matches hrules hblind kept kept' elapsed child) 0 (index + 1)
          exact (hrest.ite (Play.matches_pure (some (index, status)))).bind fun stop =>
            settle_walk_matches head.id advance stop
  | decorator head kind child =>
      rw [relaxed_decorator, proceed, proceed, ← relaxed_decorator]
      exact answer_child_matches _ kind (some status)
  | timed | action => exact Play.matches_pure status

/-! ## The running action -/

/-- A node stays serial when the flags are taken away. -/
theorem IsSerial.relaxed {node : Node G} (h : node.IsSerial) : node.relaxed.IsSerial := by
  cases node <;> exact h

/-- A relaxed node walks just in case the node does. -/
@[simp] theorem walks_relaxed (node : Node G) : node.relaxed.Walks ↔ node.Walks := by
  cases node <;> exact Iff.rfl

/-- A relaxed node stands at the children that the node stands at, if the agents are alike. -/
theorem stands_at_relaxed {one other : Agent G} (halike : one.Alike other) (node : Node G)
    (index : Nat) : node.relaxed.StandsAt index other ↔ node.StandsAt index one := by
  rw [StandsAt, id_relaxed, halike.status_of_eq, halike.position?_eq, walks_relaxed]
  rfl

/-- The children of a relaxed node are the relaxed children. -/
theorem get_elem?_relaxed {node child : Node G} {index : Nat}
    (h : node.children[index]? = some child) :
    node.relaxed.children[index]? = some child.relaxed := by
  rw [children_relaxed, List.getElem?_map, h]
  rfl

/-- A relaxed tree that is in order as far as it is open is so with its flags. -/
theorem Tracked.of_relaxed {node : Node G} (hserial : node.Serial) {one other : Agent G}
    (halike : one.Alike other) (h : node.relaxed.Tracked (fun other => other.gate = none) other) :
    node.Tracked (fun other => other.gate = none) one := by
  intro parent hparent hgate index child hchild hrunning
  have hmem : parent.relaxed ∈ node.relaxed.preorder := by
    rw [preorder_relaxed]
    exact List.mem_map_of_mem hparent
  have hrunning' : other.statusOf child.relaxed.id = .running := by
    rw [id_relaxed, halike.status_of_eq, hrunning]
  have hstands := (h _ hmem (parent.gate_relaxed.trans hgate) index _ (get_elem?_relaxed hchild)
    hrunning').resolve_right ((hserial parent hparent).relaxed.unbarred.not_spent other)
  exact .inl ((stands_at_relaxed halike parent index).1 hstands)

/-- An agent with a running action in a serial tree, and what the agent is like without
flags. -/
structure Pressed (node action : Node G) (one other : Agent G) : Prop where
  twins : one.Twins other
  serial : node.Serial
  distinct : node.Distinct
  mem : action ∈ node.preorder
  leaf : action.family = .action
  running : one.statusOf action.id = .running
  tracked : node.Tracked (fun other => other.gate = none) one

namespace Pressed

variable {node action : Node G} {one other : Agent G}

/-- What holds of the action, and goes up from each child that a serial node stands at to the
node, holds of the top. -/
theorem ascend (h : node.Pressed action one other) {motive : Node G → Prop} (base : motive action)
    (step : ∀ parent : Node G, parent.IsSerial → parent.id ∉ action.ids → ∀ index child,
      parent.children[index]? = some child → parent.StandsAt index one → motive child →
        motive parent) : motive node := by
  refine (h.tracked.ascend h.mem (fun above habove hbelow => ?_)
    (fun above habove _ => (h.serial above habove).unbarred.not_spent one) h.running base ?_).2
  · refine (h.serial above habove).unbarred.gate_eq_none fun hleaf => ?_
    simp [descendants, children_leaf hleaf] at hbelow
  · intro parent hparent hbelow
    refine step parent (h.serial parent hparent) fun hmem => ?_
    rw [ids_leaf h.leaf, List.mem_singleton] at hmem
    exact (h.distinct.of_mem_preorder hparent).id_ne_of_mem_descendants hbelow hmem.symm

/-- While the action is running, executing it alone matches the walk through the tree. -/
theorem alone_running (h : node.Pressed action one other) (hrules : rules.Modest)
    (hblind : rules.Blind) (kept kept' : NodeId → Bool) (elapsed : Nat)
    (hrunning : (action.execute rules kept elapsed one).value = .running) :
    (action.execute rules kept elapsed one).Matches []
      (node.relaxed.execute rules kept' elapsed other) := by
  refine h.ascend (motive := fun node => (action.execute rules kept elapsed one).Matches []
    (node.relaxed.execute rules kept' elapsed other))
    (action.execute_matches hrules hblind kept kept' elapsed one other h.twins) ?_
  intro parent hserial hout index child hchild hstands hmatches
  obtain ⟨after, hexecute, hafter⟩ := execute_at_running hserial.relaxed
    (get_elem?_relaxed hchild) ((stands_at_relaxed h.twins.toAlike parent index).2 hstands)
    (hmatches.value.trans hrunning)
  have hstays := hstands.of_spares (Drift.execute_entries hrules kept elapsed hout one)
    (by simp [Region.elsewhere, Slot.IsGame]) (by simp [Region.elsewhere, Slot.IsGame])
  -- What the walk stores on the way up is stored already.
  have hwalked : (action.execute rules kept elapsed one).agent.Twins after := by
    rcases hafter with rfl | ⟨hwalks, rfl⟩
    · exact hmatches.twins
    · rw [id_relaxed]
      exact hmatches.twins.reposition_right (hstays.2 ((walks_relaxed parent).1 hwalks))
  rw [hexecute, id_relaxed]
  refine ⟨hrunning.symm, ?_, hwalked.settle_right (Agent.status?_eq_some hstays.1 (by simp))⟩
  rw [calls_append, hmatches.calls]
  exact List.append_nil _

/-- Once the action has stopped, the pass that claims its result matches the walk through the
tree, which makes the calls of the action on the way. -/
theorem alone_ended (h : node.Pressed action one other) (hrules : rules.Modest)
    (hblind : rules.Blind) (kept kept' : NodeId → Bool) (elapsed : Nat) :
    let alone := action.execute rules kept elapsed one
    (node.execute rules kept elapsed (alone.agent.withWaiting action.id alone.value)).Matches
      (calls alone.notes) (node.relaxed.execute rules kept' elapsed other) := by
  intro alone
  have halone := action.execute_matches hrules hblind kept kept' elapsed one other h.twins
  refine h.ascend (motive := fun node => (node.execute rules kept elapsed
    (alone.agent.withWaiting action.id alone.value)).Matches (calls alone.notes)
      (node.relaxed.execute rules kept' elapsed other)) ?_ ?_
  · -- The action claims its result and stores it once more, which changes nothing.
    rw [execute_leaf h.leaf, Agent.waiting?_with_waiting_self]
    have hclaimed : alone.agent.Hides
        ((alone.agent.withWaiting action.id alone.value).forget .completed action.id.raw) :=
      (alone.agent.hides_remember .completed alone.value (.inr rfl)).trans
        (Agent.hides_forget _ (.inr rfl))
    refine ⟨halone.value, ?_, halone.twins.of_hides
      (hclaimed.trans (Agent.hides_resettle _ ?_ ?_)) (.refl _) ?_ halone.twins.noneWaiting.2⟩
    · rw [halone.calls]
      exact (List.append_nil _).symm
    · exact (hclaimed.spares .status action.id.raw (by simp [Region.hidden])).trans
        (action.status?_execute rules kept elapsed one)
    · exact hclaimed.trace.trans halone.twins.untraced
    · intro id
      refine (Agent.waiting?_settle _ action.id id alone.value).trans ?_
      by_cases hid : id = action.id
      · rw [hid, Agent.waiting?_forget_self]
      · rw [Agent.waiting?_forget_of_ne _ hid, Agent.waiting?_with_waiting_of_ne _ _ hid]
        exact halone.twins.noneWaiting.1 id
  · intro parent hserial hout index child hchild hstands hmatches
    -- The action has touched nothing of the node above, so the node stands where it stood.
    have hhanded : parent.StandsAt index (alone.agent.withWaiting action.id alone.value) := by
      refine StandsAt.of_spares (hstands.of_spares
        (Drift.execute_entries hrules kept elapsed hout one) ?_ ?_)
        (alone.agent.spares_with_waiting (fun slot _ => slot = .completed) alone.value rfl) ?_ ?_
      all_goals simp [Region.elsewhere, Slot.IsGame]
    rw [execute_at hserial hchild hhanded, execute_at hserial.relaxed (get_elem?_relaxed hchild)
      ((stands_at_relaxed h.twins.toAlike parent index).2 hstands)]
    exact hmatches.bind fun status =>
      (proceed_matches hrules hblind parent kept kept' elapsed index status).bind
        fun result => parent.conclude_matches result

end Pressed

end Node

/-! ## Updates -/

/-- A relaxed tree has no must-complete leaf. -/
theorem Tree.relaxed_plain (tree : Tree G) : Plain [tree.relaxed] := by
  intro node hnode
  have hmem : node ∈ tree.relaxed.toNode.preorder := by simpa [forestNodes] using hnode
  rw [tree.to_node_relaxed, Node.preorder_relaxed] at hmem
  obtain ⟨original, -, rfl⟩ := List.mem_map.1 hmem
  exact original.must_complete_relaxed

namespace Agent

/-- An agent with a tree, and an agent with the relaxed tree, between two updates. -/
structure Paired (rules : Rules G) (tree : Tree G) (one other : Agent G) : Prop where
  twins : one.Twins other
  attached : one.behavior = some tree
  composed : ∃ history, one.Composed rules [tree] history
  relaxed : ∃ history, other.Composed rules [tree.relaxed] history
  tracked : tree.relaxed.toNode.Tracked (fun node => node.gate = none) other

variable {tree : Tree G} {one other : Agent G}

/-- The beginning of a tick leaves twins alike. -/
theorem Twins.next_tick (h : one.Twins other) : one.nextTick.Twins other.nextTick where
  toAlike := { h.toAlike with
    ticks := congrArg (· + 1) h.ticks
    spares := h.spares }
  untraced := h.untraced
  noneWaiting := h.noneWaiting

/-- Twins stay alike when an update stores the same status for both. -/
theorem Twins.with_status (h : one.Twins other) (status : Status) :
    (one.withStatus status).Twins (other.withStatus status) where
  toAlike := { h.toAlike with
    status := rfl
    spares := h.spares }
  untraced := h.untraced
  noneWaiting := h.noneWaiting

/-- An action that presses is running, and every node above it stands at the way down. -/
theorem Paired.pressed (h : one.Paired rules tree other) (hrules : rules.Decided)
    (hdistinct : tree.toNode.Distinct) (hserial : tree.toNode.Serial) {action : Node G}
    (hpressing : one.pressingAction? kept = some action) :
    tree.toNode.Pressed action one.nextTick other.nextTick := by
  obtain ⟨history, hcomposed⟩ := h.composed
  have hheld := (current_action?_eq_some.1 (pressing_action?_eq_some.1 hpressing).1).1
  obtain ⟨⟨hmem, hleaf⟩, hunended⟩ := hcomposed.attentive.held action hheld
  have htracked : tree.toNode.relaxed.Tracked (fun other => other.gate = none) other.nextTick := by
    rw [← tree.to_node_relaxed]
    exact h.tracked.congr fun _ _ _ _ _ => rfl
  exact {
    twins := h.twins.next_tick
    serial := hserial
    distinct := hdistinct
    mem := by simpa [forestNodes] using hmem
    leaf := hleaf
    running := hunended.running hrules
    tracked := Node.Tracked.of_relaxed hserial h.twins.next_tick.toAlike htracked }

end Agent

/-- A report is not a call. -/
theorem calls_reported (notes : List Note) (diagnostic : Diagnostic) :
    calls (notes ++ [.reported diagnostic]) = calls notes := by
  rw [calls_append]
  exact List.append_nil _

/-- Outcomes that match still do once they are stored and reported. -/
theorem Outcome.Matches.finished {early : List Note} {one other : Outcome G Status}
    (h : one.Matches early other) (first second : Diagnostic) :
    (⟨one.value, one.agent.withStatus one.value, one.notes ++ [.reported first]⟩ :
      Outcome G Status).Matches early
        ⟨other.value, other.agent.withStatus other.value, other.notes ++ [.reported second]⟩ := by
  refine ⟨h.value, ?_, ?_⟩
  · rw [calls_reported, calls_reported, h.calls]
  · dsimp only
    rw [h.value]
    exact h.twins.with_status one.value

/-- So they do where the first one comes after a report and drops what waits. -/
theorem Outcome.Matches.finished_after {early : List Note} {one other : Outcome G Status}
    (h : one.Matches (BehaviorTree.calls early) other) (id : NodeId)
    (between first second : Diagnostic) :
    (⟨one.value, (one.agent.withStatus one.value).forget .completed id.raw,
      early ++ (.reported between :: (one.notes ++ [.reported first]))⟩ :
        Outcome G Status).Matches []
          ⟨other.value, other.agent.withStatus other.value,
            other.notes ++ [.reported second]⟩ := by
  refine ⟨h.value, ?_, ?_⟩
  · rw [calls_reported, h.calls, calls_append, List.nil_append]
    refine congrArg _ ?_
    rw [← List.singleton_append, calls_append, calls_reported]
    rfl
  · dsimp only
    rw [h.value]
    refine (h.twins.with_status one.value).of_hides (Agent.hides_forget _ (.inr rfl)) (.refl _)
      (fun other => ?_) h.twins.noneWaiting.2
    by_cases hid : other = id
    · rw [hid, Agent.waiting?_forget_self]
    · rw [Agent.waiting?_forget_of_ne _ hid]
      exact h.twins.noneWaiting.1 other

namespace Agent

variable {tree : Tree G} {one other : Agent G}

/-- An update of an agent matches that of the agent with the relaxed tree. -/
theorem Paired.update_matches (h : one.Paired rules tree other) (hrules : rules.Modest)
    (hdecided : rules.Decided) (hblind : rules.Blind) (hdistinct : tree.toNode.Distinct)
    (hserial : tree.toNode.Serial) (kept : NodeId → Bool) (elapsed : Nat) :
    (Agent.update rules kept elapsed one).Matches [] (Agent.update rules kept elapsed other) := by
  by_cases hpaused : one.paused = true
  · rw [update_idle (.inl hpaused), update_idle (.inl (h.twins.paused.trans hpaused))]
    exact ⟨h.twins.status, rfl, h.twins⟩
  have hunpaused : one.paused = false := by simpa using hpaused
  have hattached : other.behavior = some tree.relaxed := by
    rw [h.twins.behavior, h.attached]
    rfl
  obtain ⟨history, hrelaxed⟩ := h.relaxed
  -- Without flags no action presses, so every update is a pass through the tree.
  rw [update_free (h.twins.paused.trans hunpaused) hattached
    (hrelaxed.pressing_action?_eq_none tree.relaxed_plain kept), tree.to_node_relaxed]
  cases hpressing : one.pressingAction? kept with
  | none =>
      rw [update_free hunpaused h.attached hpressing]
      have hroot := tree.toNode.execute_matches hrules hblind (tree.inUse kept)
        (tree.relaxed.inUse kept) elapsed _ _ h.twins.next_tick
      exact hroot.finished _ _
  | some action =>
      have hpressed := h.pressed hdecided hdistinct hserial hpressing
      by_cases hrunning :
          (action.execute rules (tree.inUse kept) elapsed one.nextTick).value = .running
      · rw [update_pressing_running hunpaused h.attached hpressing hrunning]
        have hroot := hpressed.alone_running hrules hblind _ (tree.relaxed.inUse kept) elapsed
          hrunning
        dsimp only
        rw [← hrunning]
        exact hroot.finished _ _
      · rw [update_pressing_ended hunpaused h.attached hpressing hrunning]
        have hroot := hpressed.alone_ended hrules hblind (tree.inUse kept)
          (tree.relaxed.inUse kept) elapsed
        exact hroot.finished_after action.id _ _ _

end Agent

/-! ## Runs -/

/-- What one sees of a command: the calls that it made of the game, and the status and the
selection of the agent after it. -/
structure Glimpse where
  status : Status
  calls : List Note
  selection : List EntityId

namespace Command

/-- What one sees of commands, one after the other. -/
def glimpses (rules : Rules G) : List (Command G) → Agent G → List Glimpse
  | [], _ => []
  | command :: rest, agent =>
      let outcome := command.play rules agent
      ⟨outcome.agent.status, calls outcome.notes, outcome.agent.selection⟩ ::
        glimpses rules rest outcome.agent

/-- Whether a command leaves the tree of an agent alone. -/
def LeavesTree : Command G → Prop
  | update _ _ | setSelection _ | setPaused _ => True
  | setBehavior _ _ | takeBehavior => False

/-- A command that leaves the tree alone brings in no other one. -/
theorem LeavesTree.within {command : Command G} (h : command.LeavesTree)
    (forest : List (Tree G)) : command.Within forest := by
  cases command with
  | setBehavior | takeBehavior => exact h.elim
  | update | setSelection | setPaused => trivial

/-- A command that leaves the tree alone does so, as the game is modest. -/
theorem LeavesTree.behavior_eq (hrules : rules.Modest) {command : Command G}
    (h : command.LeavesTree) (agent : Agent G) :
    (command.play rules agent).agent.behavior = agent.behavior := by
  cases command with
  | update kept elapsed => exact agent.behavior_update hrules kept elapsed
  | setBehavior | takeBehavior => exact h.elim
  | setSelection | setPaused => rfl

variable {tree : Tree G} {command : Command G} {one other : Agent G}

/-- A command that leaves the tree alone matches itself. -/
theorem play_matches (h : one.Paired rules tree other) (hrules : rules.Modest)
    (hdecided : rules.Decided) (hblind : rules.Blind) (hdistinct : tree.toNode.Distinct)
    (hserial : tree.toNode.Serial) (hcommand : command.LeavesTree) :
    (command.play rules one).Matches [] (command.play rules other) := by
  cases command with
  | update kept elapsed =>
      have hmatches := h.update_matches hrules hdecided hblind hdistinct hserial kept elapsed
      rw [play, Play.map_apply, Play.map_apply]
      exact ⟨rfl, hmatches.calls, hmatches.twins⟩
  | setBehavior | takeBehavior => exact hcommand.elim
  | setSelection selection => exact ⟨rfl, rfl, h.twins.select fun _ => selection⟩
  | setPaused paused =>
      exact ⟨rfl, rfl, { h.twins.toAlike with paused := rfl, spares := h.twins.spares },
        h.twins.untraced, h.twins.noneWaiting⟩

/-- A command that leaves the tree alone leaves agents paired. -/
theorem play_paired (h : one.Paired rules tree other) (hrules : rules.Modest)
    (hdecided : rules.Decided) (hblind : rules.Blind) (hdistinct : tree.toNode.Distinct)
    (hserial : tree.toNode.Serial) (hcommand : command.LeavesTree) :
    (command.play rules one).agent.Paired rules tree (command.play rules other).agent := by
  obtain ⟨history, hcomposed⟩ := h.composed
  obtain ⟨history', hrelaxed⟩ := h.relaxed
  have hforest := Tree.distinct_forest hdistinct
  have hforest' : Distinct [tree.relaxed] := by
    refine Tree.distinct_forest ?_
    rw [tree.to_node_relaxed]
    exact hdistinct.relaxed
  have hchronicle := play_chronicle tree.relaxed_plain command hrelaxed (.rest rfl)
  have hpass := hchronicle.tracked hrules hforest' (fun node => node.gate = none)
    (by simpa using h.tracked)
  exact {
    twins := (play_matches h hrules hdecided hblind hdistinct hserial hcommand).twins
    attached := (hcommand.behavior_eq hrules one).trans h.attached
    composed := ⟨_, play_composed hrules hforest.unambiguous (hcommand.within _) one history
      hcomposed⟩
    relaxed := ⟨_, play_composed hrules hforest'.unambiguous (hcommand.within _) other history'
      hrelaxed⟩
    tracked := hpass.1
      (fun _ _ hgate => by simp [Visit.Admitted, Node.approach, Node.open, hgate])
      tree.relaxed (List.mem_singleton_self _) }

/-- What one sees of paired agents is the same, command by command. -/
theorem glimpses_eq (h : one.Paired rules tree other) (hrules : rules.Modest)
    (hdecided : rules.Decided) (hblind : rules.Blind) (hdistinct : tree.toNode.Distinct)
    (hserial : tree.toNode.Serial) {commands : List (Command G)}
    (hcommands : ∀ command ∈ commands, command.LeavesTree) :
    glimpses rules commands one = glimpses rules commands other := by
  induction commands generalizing one other with
  | nil => rfl
  | cons command rest ih =>
      obtain ⟨hcommand, hrest⟩ := List.forall_mem_cons.1 hcommands
      have hmatches := play_matches h hrules hdecided hblind hdistinct hserial hcommand
      have hpaired := play_paired h hrules hdecided hblind hdistinct hserial hcommand
      rw [glimpses, glimpses, ih hpaired hrest]
      simp only [hmatches.twins.status, hmatches.twins.selection, hmatches.calls, List.nil_append]

end Command

/-- A new agent that was given a tree. -/
def Agent.freshWith (entity : EntityId) (tree : Tree G) : Agent G :=
  { Agent.fresh entity with behavior := some tree }

/-- A new agent with a tree holds nothing, and nothing waits for it. -/
theorem Agent.fresh_with_composed (rules : Rules G) (entity : EntityId) (tree : Tree G) :
    (Agent.freshWith entity tree).Composed rules [tree] [] := by
  have hfresh : (Agent.freshWith entity tree).Composed rules [tree] ([] ++ []) :=
    (Agent.fresh_composed entity).congr rfl rfl (by simp [Agent.freshWith]) (by simp)
  exact hfresh

/-- New agents with a tree and with the relaxed tree are paired. -/
theorem Agent.fresh_with_paired (rules : Rules G) (entity : EntityId) (tree : Tree G) :
    (Agent.freshWith entity tree).Paired rules tree (Agent.freshWith entity tree.relaxed) where
  twins :=
    { toAlike := ⟨rfl, rfl, rfl, rfl, rfl, rfl, rfl, rfl, fun _ _ _ => rfl⟩
      untraced := rfl
      noneWaiting := ⟨fun _ => rfl, fun _ => rfl⟩ }
  attached := rfl
  composed := ⟨[], Agent.fresh_with_composed rules entity tree⟩
  relaxed := ⟨[], Agent.fresh_with_composed rules entity tree.relaxed⟩
  tracked := (Agent.fresh_tracked _ tree.relaxed.toNode entity).congr fun _ _ _ _ _ => rfl

/-- Whatever the flags of a serial tree, one sees the same of an agent that runs it as of one
that runs the tree without flags: command by command the same calls of leaves and conditions
in the same order, the same status and the same selection. -/
theorem fast_path_agrees (hrules : rules.Modest) (hdecided : rules.Decided) (hblind : rules.Blind)
    {tree : Tree G} (hdistinct : tree.toNode.Distinct) (hserial : tree.toNode.Serial)
    {commands : List (Command G)} (hcommands : ∀ command ∈ commands, command.LeavesTree)
    (entity : EntityId) (kept : NodeId → Bool) :
    Command.glimpses rules (.setBehavior kept tree :: commands) (Agent.fresh entity) =
      Command.glimpses rules (.setBehavior kept tree.relaxed :: commands)
        (Agent.fresh entity) := by
  have hset : ∀ tree : Tree G,
      Command.glimpses rules (.setBehavior kept tree :: commands) (Agent.fresh entity) =
        ⟨.unknown, [], []⟩ :: Command.glimpses rules commands (Agent.freshWith entity tree) := by
    intro tree
    obtain ⟨hagent, hnotes⟩ := Agent.set_behavior_apply kept tree (Agent.fresh entity)
    rw [Command.glimpses, Command.play, Play.map_apply]
    simp only [hagent, calls_of_reports hnotes]
    rfl
  rw [hset, hset, Command.glimpses_eq (Agent.fresh_with_paired rules entity tree) hrules hdecided
    hblind hdistinct hserial hcommands]

/-- The example tree is serial. -/
theorem errand_tree_serial : errandTree.toNode.Serial := by
  intro node hnode
  simp only [errandTree, Tree.toNode, Node.preorder, Node.preorderChild, Node.preorderAll,
    List.append_nil, List.mem_cons, List.not_mem_nil, or_false, List.cons_append,
    List.nil_append] at hnode
  rcases hnode with rfl | rfl | rfl | rfl <;> simp [Node.IsSerial]

/-- The first leaf is executed alone, hands its result over, and leaves the next updates to the
second. -/
theorem fast_path_agrees_errand :
    let commands := [1, 2, 2, 2].map (Command.update fun _ => false)
    let glimpses := Command.glimpses (Rules.clocked deadline)
      (.setBehavior (fun _ => false) errandTree :: commands) (Agent.fresh 7)
    glimpses.map Glimpse.status = [.unknown, .running, .running, .running, .finished] ∧
      glimpses = Command.glimpses (Rules.clocked deadline)
        (.setBehavior (fun _ => false) errandTree.relaxed :: commands) (Agent.fresh 7) := by
  intro commands glimpses
  have hcommands : ∀ command ∈ commands, command.LeavesTree := by
    simp [commands, Command.LeavesTree]
  refine ⟨by rfl, ?_⟩
  exact fast_path_agrees (Rules.clocked_modest deadline) deadline_decided
    (Rules.clocked_blind deadline) errand_tree_distinct errand_tree_serial hcommands 7 _

end BehaviorTree
