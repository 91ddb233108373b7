import BehaviorTree.Proofs.Reference

/-!
# What changes by executions of a node alone

The engine keeps what a node has to remember under the node's identity. A drift that depends on
such entries alone (`Drift.Reads`) goes on through everything that other nodes do, as long as the
game respects the entries (`Rules.Respect`). So from one execution of a node to the next the agent
drifts, whatever else is executed and done in between (`Drift.Owned.play_executions_linked`).
-/

namespace BehaviorTree

variable {G : Game} {rules : Rules G} {kept : NodeId → Bool} {elapsed : Nat}
  {forest : List (Tree G)} {slots : Slot G → Prop} {id : NodeId} {drift : Drift G} {node : Node G}

/-! ## Entries under an identity -/

/-- A drift that depends on entries of some kinds under an identity alone. -/
structure Drift.Reads (drift : Drift G) (slots : Slot G → Prop) (id : NodeId) : Prop where
  of_spares : ∀ {before after : Agent G} {region : Region G}, before.Spares region after →
    (∀ slot, slots slot → ¬ region slot id.raw) → drift.rel before after

/-- Entries of some kinds under an identity stay the same. -/
def Drift.stored (slots : Slot G → Prop) (id : NodeId) : Drift G where
  rel before after := ∀ slot, slots slot →
    after.context.get? slot id.raw = before.context.get? slot id.raw
  refl _ _ _ := rfl
  trans hfirst hsecond slot hslot := (hsecond slot hslot).trans (hfirst slot hslot)

/-- Whether entries stay the same is a matter of these entries. -/
theorem Drift.stored_reads (slots : Slot G → Prop) (id : NodeId) :
    (Drift.stored slots id).Reads slots id where
  of_spares hspares hregion slot hslot := hspares slot id.raw (hregion slot hslot)

namespace Drift.Reads

/-- A drift goes on where the context is the same. -/
theorem of_context (h : drift.Reads slots id) {before after : Agent G}
    (hcontext : after.context = before.context) : drift.rel before after := by
  have hspares : before.Spares (fun _ _ => False) after := fun _ _ _ => by rw [hcontext]
  exact h.of_spares hspares fun _ _ hfalse => hfalse

/-- A drift that is read off one identity goes on where another one's entries are changed. -/
theorem of_other (h : drift.Reads slots id) {other : NodeId} (hne : other ≠ id)
    {before after : Agent G} (hspares : before.Spares (fun _ key => key = other.raw) after) :
    drift.rel before after :=
  h.of_spares hspares fun _ _ heq => hne (NodeId.raw_inj.1 heq).symm

/-- A drift that is read off the engine's entries goes on through every question to the game. -/
theorem questions (h : drift.Reads slots id) : drift.passage.Questions where
  note agent _ _ := drift.refl agent
  select _ _ := h.of_context rfl

/-- Whatever the engine stores for another node is under an identity of its own. -/
theorem works (h : drift.Reads slots id) (hheld : ¬ slots .currentAction) (hne : node.id ≠ id)
    (kept : NodeId → Bool) : drift.passage.Works kept node where
  toQuestions := h.questions
  remember agent slot value _ _ := h.of_other hne (agent.spares_remember _ slot value rfl)
  forget agent _ _ _ := h.of_other hne (agent.spares_forget _ rfl)
  follow agent status :=
    h.of_spares (agent.spares_follow kept (fun slot _ => slot = .currentAction) node status rfl)
      fun _ hslot heq => hheld (heq ▸ hslot)
  release agent :=
    h.of_spares (agent.spares_release (fun slot _ => slot = .currentAction) node.id rfl)
      fun _ hslot heq => hheld (heq ▸ hslot)

/-- A drift that is read off one identity goes on when the result of another node is settled. -/
theorem settle (h : drift.Reads slots id) {other : NodeId} (hne : other ≠ id) (agent : Agent G)
    (status : Status) : drift.rel agent (agent.settle other status) :=
  h.of_other hne (agent.spares_settle _ status rfl)

end Drift.Reads

/-! ## Games that respect what is kept for a node -/

/-- Entries of some kinds under an identity and the actions that are held are the same, and no
tree from outside a forest was attached. -/
structure Agent.Respects (slots : Slot G → Prop) (id : NodeId) (forest : List (Tree G))
    (before after : Agent G) : Prop where
  entries : (Drift.stored slots id).rel before after
  held : before.Spares (fun slot _ => slot ≠ .currentAction) after
  behavior : (∀ tree ∈ before.behavior, tree ∈ forest) → ∀ tree ∈ after.behavior, tree ∈ forest

/-- Whoever respects the entries that a drift is read off lets it go on. -/
theorem Agent.Respects.rel {before after : Agent G} (h : before.Respects slots id forest after)
    (hreads : drift.Reads slots id) : drift.rel before after := by
  have hspares : before.Spares (fun slot key => ¬ (slots slot ∧ key = id.raw)) after := by
    intro slot key hkey
    obtain ⟨hslot, rfl⟩ := not_not.1 hkey
    exact h.entries slot hslot
  exact hreads.of_spares hspares fun slot hslot hnot => hnot ⟨hslot, rfl⟩

/-- Doings that respect what is kept under an identity. -/
def Passage.respecting (slots : Slot G → Prop) (id : NodeId) (forest : List (Tree G)) :
    Passage G where
  allows before _ after := before.Respects slots id forest after
  stay agent := ⟨(Drift.stored slots id).refl agent, .refl agent, fun h => h⟩
  join hfirst hsecond :=
    { entries := (Drift.stored slots id).trans hfirst.entries hsecond.entries
      held := hfirst.held.trans hsecond.held
      behavior := fun h => hsecond.behavior (hfirst.behavior h) }

/-- Wherever they stand in a forest, the leaves, conditions and filters of a game respect what is
kept under an identity. -/
def Rules.Respect (rules : Rules G) (slots : Slot G → Prop) (id : NodeId)
    (forest : List (Tree G)) : Prop :=
  ∀ node ∈ forestNodes forest, rules.Keep (.respecting slots id forest) node

/-- Leaves that go by the clock alone respect everything. -/
theorem Rules.clocked_respect {Leaf : Type} (answer : Leaf → Nat → Status)
    (slots : Slot (Game.clocked Leaf) → Prop) (id : NodeId)
    (forest : List (Tree (Game.clocked Leaf))) :
    (Rules.clocked answer).Respect slots id forest := fun _ _ =>
  { enter := fun _ => Play.keeps_pure ()
    act := fun leaf elapsed => Play.keeps_pure (answer leaf elapsed)
    test := nofun
    sift := nofun }

namespace Rules.Respect

/-- A game that respects entries under an identity is loyal to the forest. -/
theorem loyal (h : rules.Respect slots id forest) : rules.Loyal forest := fun node hnode =>
  (h node hnode).mono fun hrespects hrefers =>
    hrefers.of_spares hrespects.held (by simp) (hrespects.behavior hrefers.behavior)

/-- A game that respects the entries that a drift is read off lets it go on at every node. -/
theorem keep (h : rules.Respect slots id forest) (hreads : drift.Reads slots id)
    (hnode : node ∈ forestNodes forest) : rules.Keep drift.passage node :=
  (h node hnode).mono fun hrespects => hrespects.rel hreads

end Rules.Respect

/-! ## Drifts that belong to a node -/

/-- A drift that goes on through what every node but the one with an identity does. -/
def Drift.Outlasts (drift : Drift G) (rules : Rules G) (forest : List (Tree G)) (id : NodeId) :
    Prop :=
  ∀ node ∈ forestNodes forest, node.id ≠ id → ∀ kept elapsed,
    drift.passage.manner.Suits rules kept elapsed node

/-- A drift that goes on through everything but executions of the node with an identity. -/
structure Drift.Owned (drift : Drift G) (rules : Rules G) (forest : List (Tree G)) (id : NodeId) :
    Prop where
  suits : drift.Outlasts rules forest id
  of_context : ∀ {before after : Agent G}, after.context = before.context →
    drift.rel before after
  handed : ∀ (agent : Agent G) (action : NodeId), agent.statusOf action ≠ .running →
    drift.rel agent (agent.withWaiting action (agent.statusOf action))
  dropped : ∀ (agent : Agent G) (action : NodeId),
    drift.rel agent (agent.forget .completed action.raw)

/-- A drift that is read off one identity outlasts all other nodes, unless it is read off the
current action. -/
theorem Drift.Reads.outlasts (h : drift.Reads slots id) (hrules : rules.Respect slots id forest)
    (hheld : ¬ slots .currentAction) : drift.Outlasts rules forest id :=
  fun _ hnode hne kept _ =>
    (h.works hheld hne kept).suits (hrules.keep h hnode) fun agent => h.settle hne agent

/-- What is kept under an identity belongs to its node if the game respects it. -/
theorem Drift.Reads.owned (h : drift.Reads slots id) (hrules : rules.Respect slots id forest)
    (hheld : ¬ slots .currentAction) (hwaiting : ¬ slots .completed) :
    drift.Owned rules forest id where
  suits := h.outlasts hrules hheld
  of_context := h.of_context
  handed agent _ _ :=
    h.of_spares (agent.spares_with_waiting (fun slot _ => slot = .completed) _ rfl)
      fun _ hslot heq => hwaiting (heq ▸ hslot)
  dropped agent _ :=
    h.of_spares (agent.spares_forget (fun slot _ => slot = .completed) rfl)
      fun _ hslot heq => hwaiting (heq ▸ hslot)

/-! ## Executions of one node -/

/-- Executions between which an agent drifts: each finds the agent as the one before has left it,
up to the drift. -/
def Linked (rules : Rules G) (drift : Drift G) : Agent G → List (Execution G) → Agent G → Prop
  | before, [], after => drift.rel before after
  | before, execution :: later, after =>
      drift.rel before execution.agent ∧
        Linked rules drift (execution.outcome rules).agent later after

namespace Linked

variable {drift : Drift G} {before middle after : Agent G} {early late : List (Execution G)}

/-- A row of executions may start earlier, if the agent drifts up to its start. -/
theorem move (hmove : drift.rel before middle) (h : Linked rules drift middle late after) :
    Linked rules drift before late after := by
  cases late with
  | nil => exact drift.trans hmove h
  | cons execution later => exact ⟨drift.trans hmove h.1, h.2⟩

/-- Rows of executions can be put one behind the other. -/
theorem append (hearly : Linked rules drift before early middle)
    (hlate : Linked rules drift middle late after) :
    Linked rules drift before (early ++ late) after := by
  induction early generalizing before with
  | nil => exact hlate.move hearly
  | cons execution early ih => exact ⟨hearly.1, ih hearly.2⟩

/-- A row of executions may end later, if the agent drifts from its end. -/
theorem settle (h : Linked rules drift before early middle) (hmove : drift.rel middle after) :
    Linked rules drift before early after := by
  have hall : Linked rules drift before (early ++ []) after := h.append hmove
  rwa [List.append_nil] at hall

/-- A row of executions can be cut anywhere. -/
theorem split (h : Linked rules drift before (early ++ late) after) :
    ∃ middle, Linked rules drift before early middle ∧ Linked rules drift middle late after := by
  induction early generalizing before with
  | nil => exact ⟨before, drift.refl before, h⟩
  | cons execution early ih =>
      obtain ⟨middle, hearly, hlate⟩ := ih h.2
      exact ⟨middle, ⟨h.1, hearly⟩, hlate⟩

/-- The agent drifts up to the first execution of a row. -/
theorem head {first : Execution G} (h : Linked rules drift before late after)
    (hfirst : late.head? = some first) : drift.rel before first.agent := by
  cases late with
  | nil => cases hfirst
  | cons execution later =>
      obtain rfl := Option.some.inj hfirst
      exact h.1

end Linked

/-- The children that an execution executes, in order. -/
def Execution.turns (rules : Rules G) (execution : Execution G) : List (Visit G) :=
  execution.node.turns rules execution.kept execution.elapsed execution.agent

/-- The agent as the gate of an executed node has left it. -/
def Execution.near (rules : Rules G) (execution : Execution G) : Agent G :=
  (execution.node.approach rules execution.agent).agent

/-- Whether an execution runs the logic of its node: its gate is open, and no result waits for it
to be claimed. -/
def Execution.runs (rules : Rules G) (execution : Execution G) : Bool :=
  !(execution.node.family = .action && (execution.agent.waiting? execution.node.id).isSome) &&
    (execution.node.approach rules execution.agent).value

/-- A composite or decorator runs its logic just in case its gate is open. -/
theorem Execution.runs_inner {execution : Execution G}
    (hinner : execution.node.family ≠ .action) :
    execution.runs rules = (execution.node.approach rules execution.agent).value := by
  simp [runs, hinner]

/-- The executions of the node with an identity. -/
def Execution.sameNode (id : NodeId) (executions : List (Execution G)) : List (Execution G) :=
  executions.filter fun execution => execution.node.id = id

/-- The executions of a node are those among the first ones and then those among the others. -/
theorem Execution.same_node_append (id : NodeId) (early late : List (Execution G)) :
    sameNode id (early ++ late) = sameNode id early ++ sameNode id late :=
  List.filter_append early late

/-- The executions of a node are linked through turns if they are linked in each of them. -/
theorem Threads.linked {turns : List (Visit G)} {before after : Agent G} {notes : List Note}
    {id : NodeId} {drift : Drift G} (h : Threads rules kept elapsed turns before notes after)
    (hturns : ∀ turn ∈ turns, Linked rules drift turn.agent
      (Execution.sameNode id (Execution.ofNode rules kept elapsed turn.node turn.agent))
      (turn.node.execute rules kept elapsed turn.agent).agent) :
    Linked rules drift before
      (Execution.sameNode id (turns.flatMap fun turn =>
        Execution.ofNode rules kept elapsed turn.node turn.agent)) after := by
  induction turns generalizing before notes with
  | nil =>
      obtain ⟨-, rfl⟩ := h
      exact drift.refl after
  | cons turn rest ih =>
      obtain ⟨rfl, late, -, hrest⟩ := h
      rw [List.flatMap_cons, Execution.same_node_append]
      exact (hturns turn List.mem_cons_self).append
        (ih hrest fun other hother => hturns other (List.mem_cons_of_mem turn hother))

namespace Node

/-- The executions in one of a node are the node's own and then those in its turns. -/
theorem of_node_eq (node : Node G) (agent : Agent G) :
    Execution.ofNode rules kept elapsed node agent =
      ⟨⟨node, agent⟩, kept, elapsed⟩ :: (node.turns rules kept elapsed agent).flatMap
        fun turn => Execution.ofNode rules kept elapsed turn.node turn.agent := by
  rw [Execution.ofNode, visits_eq, List.map_cons, List.map_flatMap]
  rfl

/-- Of a node elsewhere an execution comes to no execution. -/
theorem same_node_of_not_mem {node : Node G} {id : NodeId} (hid : id ∉ node.ids)
    (agent : Agent G) :
    Execution.sameNode id (Execution.ofNode rules kept elapsed node agent) = [] := by
  refine List.filter_eq_nil_iff.2 fun execution hexecution heq => ?_
  obtain ⟨visit, hvisit, rfl⟩ := List.mem_map.1 hexecution
  exact hid (mem_ids.2 ⟨visit.node, visits_mem hvisit, of_decide_eq_true heq⟩)

/-- Of the node itself an execution comes to one execution, itself. -/
theorem same_node_self (hforest : Unambiguous forest) {node : Node G}
    (hnode : node ∈ forestNodes forest) (agent : Agent G) :
    Execution.sameNode node.id (Execution.ofNode rules kept elapsed node agent) =
      [⟨⟨node, agent⟩, kept, elapsed⟩] := by
  have hbelow : Execution.sameNode node.id ((node.turns rules kept elapsed agent).flatMap
      fun turn => Execution.ofNode rules kept elapsed turn.node turn.agent) = [] := by
    rw [Execution.sameNode, List.filter_flatMap, List.flatMap_eq_nil_iff]
    intro turn hturn
    have hdescendant : turn.node ∈ node.descendants :=
      mem_descendants.2 ⟨_, turns_mem hturn, turn.node.self_mem_preorder⟩
    exact same_node_of_not_mem (hforest.id_not_mem_below hnode hdescendant) turn.agent
  rw [Execution.sameNode] at hbelow
  rw [of_node_eq, Execution.sameNode, List.filter_cons_of_pos (by simp), hbelow]

end Node

namespace Drift.Outlasts

/-- In an execution elsewhere the agent drifts. -/
theorem execute (h : drift.Outlasts rules forest id) (kept : NodeId → Bool) (elapsed : Nat)
    (hnode : node ∈ forestNodes forest) (hid : id ∉ node.ids) :
    (node.execute rules kept elapsed).Keeps drift.passage := by
  refine drift.passage.manner.execute fun other hother => ?_
  have hne : other.id ≠ id := fun heq => hid (heq ▸ Node.mem_ids.2 ⟨other, hother, rfl⟩)
  exact h other (forest_nodes_trans hnode hother) hne kept elapsed

/-- In an execution the agent drifts from one execution of the node to the next. -/
theorem execute_linked {top : Node G} (h : drift.Outlasts rules forest top.id)
    (hforest : Unambiguous forest) (kept : NodeId → Bool) (elapsed : Nat)
    (htop : top ∈ forestNodes forest) (hnode : node ∈ forestNodes forest) (agent : Agent G) :
    Linked rules drift agent
      (Execution.sameNode top.id (Execution.ofNode rules kept elapsed node agent))
      (node.execute rules kept elapsed agent).agent := by
  induction node using Node.by_family generalizing agent with
  | inner node hinner ih =>
      by_cases hself : node.id = top.id
      · obtain rfl := hforest node hnode top htop hself
        rw [Node.same_node_self hforest hnode]
        exact ⟨drift.refl _, drift.refl _⟩
      · -- Another node leaves the entries to its children, and they keep them by induction.
        have hsuits := h node hnode hself kept elapsed
        obtain ⟨notes, reached, late, last, status, heq, hearly, hturns, hlate⟩ :=
          Node.execute_threads_of_tends kept elapsed hinner (hsuits.inner hinner) hsuits.entry
            hsuits.gate agent
        have hchildren : Linked rules drift (node.approach rules agent).agent
            (Execution.sameNode top.id ((node.turns rules kept elapsed agent).flatMap fun turn =>
              Execution.ofNode rules kept elapsed turn.node turn.agent)) reached := by
          refine hturns.linked fun turn hturn => ?_
          have hchild := Node.child_mem_preorder (Node.turns_mem hturn)
          exact ih turn.node (Node.turns_mem hturn) (forest_nodes_trans hnode hchild) turn.agent
        rw [heq, Node.of_node_eq, Execution.sameNode,
          List.filter_cons_of_neg (by simpa using hself)]
        exact (hchildren.move hearly).settle (drift.trans hlate (hsuits.conclude status last))
  | leaf node hleaf =>
      by_cases hself : node.id = top.id
      · obtain rfl := hforest node hnode top htop hself
        rw [Node.same_node_self hforest hnode]
        exact ⟨drift.refl _, drift.refl _⟩
      · have hid : top.id ∉ node.ids := Node.not_mem_ids_leaf hleaf (Ne.symm hself)
        rw [Node.same_node_of_not_mem hid]
        exact h.execute kept elapsed hnode hid agent

end Drift.Outlasts

namespace Drift.Owned

/-- In an update the agent drifts from one execution of the node to the next. -/
theorem update_linked {top : Node G} (h : drift.Owned rules forest top.id)
    (hforest : Unambiguous forest) (kept : NodeId → Bool) (elapsed : Nat)
    (htop : top ∈ forestNodes forest) {agent : Agent G} (hagent : agent.Refers forest) :
    Linked rules drift agent
      (Execution.sameNode top.id ((agent.updateVisits rules kept elapsed).map
        fun visit => ⟨visit, agent.alive kept, elapsed⟩))
      (Agent.update rules kept elapsed agent).agent := by
  have hcourse := Agent.update_course rules kept elapsed agent
  generalize agent.updateVisits rules kept elapsed = visits at hcourse ⊢
  generalize Agent.update rules kept elapsed agent = outcome at hcourse ⊢
  have hnext : drift.rel agent agent.nextTick := h.of_context rfl
  cases hcourse with
  | idle => exact drift.refl agent
  | @free tree root hpaused hbehavior hpressing hroot =>
      have hlinked := h.suits.execute_linked hforest (tree.inUse kept) elapsed htop
        (hagent.root hbehavior) agent.nextTick
      rw [← hroot] at hlinked
      rw [Agent.alive_eq_in_use hbehavior]
      exact (hlinked.move hnext).settle (h.of_context rfl)
  | @busy tree action alone hpaused hbehavior hpressing halone hrunning =>
      have hlinked := h.suits.execute_linked hforest (tree.inUse kept) elapsed htop
        (hagent.pressing hpressing) agent.nextTick
      rw [← halone] at hlinked
      rw [Agent.alive_eq_in_use hbehavior]
      exact (hlinked.move hnext).settle (h.of_context rfl)
  | @ended tree action alone root final hpaused hbehavior hpressing halone hended hroot hfinal =>
      have hlinked := h.suits.execute_linked hforest (tree.inUse kept) elapsed htop
        (hagent.pressing hpressing) agent.nextTick
      have hlast := action.status_of_execute rules (tree.inUse kept) elapsed agent.nextTick
      rw [← halone] at hlinked hlast
      -- The result that waits is the status that the action ended with.
      have hwait : drift.rel alone.agent (alone.agent.withWaiting action.id alone.value) := by
        rw [← hlast] at hended ⊢
        exact h.handed alone.agent action.id hended
      subst hfinal hroot
      have hpass := h.suits.execute_linked hforest (tree.inUse kept) elapsed htop
        (hagent.root hbehavior) (alone.agent.withWaiting action.id alone.value)
      rw [Agent.alive_eq_in_use hbehavior, List.map_append, Execution.same_node_append]
      refine ((hlinked.move hnext).append (hpass.move hwait)).settle ?_
      exact drift.trans (h.dropped _ action.id) (h.of_context rfl)

/-- In a run the agent drifts from one execution of the node to the next. -/
theorem play_executions_linked {top : Node G} (h : drift.Owned rules forest top.id)
    (hrules : rules.Loyal forest) (hforest : Unambiguous forest)
    (htop : top ∈ forestNodes forest) {commands : List (Command G)}
    (hcommands : ∀ command ∈ commands, command.Within forest) {agent : Agent G}
    (hagent : agent.Refers forest) :
    Linked rules drift agent
      (Execution.sameNode top.id (Command.playExecutions rules commands agent))
      (Command.playAll rules commands agent).agent := by
  induction commands generalizing agent with
  | nil => exact drift.refl agent
  | cons command rest ih =>
      obtain ⟨hcommand, hrest⟩ := List.forall_mem_cons.1 hcommands
      have hlinked : Linked rules drift agent
          (Execution.sameNode top.id (Execution.ofCommand rules command agent))
          (command.play rules agent).agent := by
        cases command with
        | update kept elapsed => exact h.update_linked hforest kept elapsed htop hagent
        | setBehavior kept tree =>
            rw [Command.play, Play.map_apply, (Agent.set_behavior_apply kept tree agent).1]
            exact h.of_context rfl
        | takeBehavior | setSelection | setPaused => exact h.of_context rfl
      rw [Command.playExecutions, Execution.same_node_append]
      exact hlinked.append (ih hrest (Command.play_refers hrules hcommand agent hagent))

end Drift.Owned

/-- The executions in a run that are of the node with the identity of a node are executions of this
node. -/
theorem Command.play_executions_same {top : Node G} (hrules : rules.Loyal forest)
    (hforest : Unambiguous forest) (htop : top ∈ forestNodes forest)
    {commands : List (Command G)} (hcommands : ∀ command ∈ commands, command.Within forest)
    {agent : Agent G} (hagent : agent.Refers forest) :
    ∀ execution ∈ Execution.sameNode top.id (playExecutions rules commands agent),
      execution.node = top := by
  intro execution hexecution
  obtain ⟨hplayed, hid⟩ := List.mem_filter.1 hexecution
  have hnode := play_executions_within hrules hcommands hagent execution hplayed
  exact hforest _ hnode _ htop (of_decide_eq_true hid)

end BehaviorTree
