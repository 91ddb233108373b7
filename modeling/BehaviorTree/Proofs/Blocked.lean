import BehaviorTree.Proofs.Inverters
import BehaviorTree.Proofs.Linking
import BehaviorTree.Proofs.Pathway
import BehaviorTree.Proofs.Succession

/-!
# Blocked subtrees below inverters

A blocked result is not one that an inverter takes back: the first inverter above it counts it as a
success. So a chain of inverters above a subtree that is blocked comes out finished or failed by its
length (`Node.chain_blocked`), in the pass in which it is blocked and, if it is a must-complete
action that was blocked ahead of the tree, in the pass in which it hands this result over
(`Node.Distinct.claims`).

A pass comes to a node through everything above it (`Node.Distinct.visits_through`), hence to the
chain wherever it comes to the subtree. What need not be is that a pass comes to an action that was
blocked ahead of it (`Agent.update_blocked`). Up to the first blocked result one chain passes for
any other of its parity (`inverters_unseen`).
-/

namespace BehaviorTree

variable {G : Game} {rules : Rules G} {kept : NodeId → Bool} {elapsed : Nat}

/-- Where no key is repeated, an entry is the only one with its key. -/
theorem filter_key {α : Type} {key : α → NodeId} {entries : List α}
    (hnodup : (entries.map key).Nodup) {entry : α} (hentry : entry ∈ entries) :
    entries.filter (fun other => key other = key entry) = [entry] := by
  induction entries with
  | nil => cases hentry
  | cons first rest ih =>
      rw [List.map_cons, List.nodup_cons] at hnodup
      rcases List.mem_cons.1 hentry with rfl | hrest
      · have hother : ∀ other ∈ rest, ¬ key other = key entry := fun other hother heq =>
          hnodup.1 (heq ▸ List.mem_map_of_mem hother)
        rw [List.filter_cons_of_pos (by simp), List.filter_eq_nil_iff.2 (by simpa using hother)]
      · have hfirst : ¬ key first = key entry := fun heq =>
          hnodup.1 (heq ▸ List.mem_map_of_mem hrest)
        rw [List.filter_cons_of_neg (by simpa using hfirst), ih hnodup.2 hrest]

/-! ## What a pass comes to -/

namespace Node

/-- What is visited from a visited node is visited. -/
theorem visits_trans {node : Node G} {agent : Agent G} {middle visit : Visit G}
    (hmiddle : middle ∈ node.visits rules kept elapsed agent)
    (hvisit : visit ∈ middle.node.visits rules kept elapsed middle.agent) :
    visit ∈ node.visits rules kept elapsed agent := by
  induction node using by_family generalizing agent with
  | inner node _ ih =>
      rw [visits_eq] at hmiddle
      rcases List.mem_cons.1 hmiddle with rfl | hbelow
      · exact hvisit
      obtain ⟨turn, hturn, hmiddle⟩ := List.mem_flatMap.1 hbelow
      exact visits_of_turn hturn (ih turn.node (turns_mem hturn) hmiddle)
  | leaf node hleaf =>
      rw [visits_leaf hleaf, List.mem_singleton] at hmiddle
      rw [hmiddle] at hvisit
      exact hvisit

namespace Distinct

variable {node top : Node G} {agent : Agent G} {visit : Visit G}

/-- What stands below a node is visited from it alone. -/
theorem visits_through (h : node.Distinct) (htop : top ∈ node.preorder)
    (hvisit : visit ∈ node.visits rules kept elapsed agent) (hbelow : visit.node ∈ top.preorder) :
    ∃ start, ⟨top, start⟩ ∈ node.visits rules kept elapsed agent ∧
      visit ∈ top.visits rules kept elapsed start := by
  induction node using by_family generalizing agent with
  | inner node _ ih =>
      rcases mem_preorder.1 htop with rfl | ⟨above, habove, htop⟩
      · exact ⟨agent, self_mem_visits _ agent, hvisit⟩
      have hid : visit.node.id ∈ above.ids := ids_subset htop (mem_ids.2 ⟨_, hbelow, rfl⟩)
      rw [visits_eq] at hvisit
      rcases List.mem_cons.1 hvisit with rfl | hlow
      · exact absurd hid (h.id_not_mem habove)
      obtain ⟨turn, hturn, hvisit⟩ := List.mem_flatMap.1 hlow
      obtain rfl : turn.node = above := h.child_unique (turns_mem hturn) habove
        (mem_ids.2 ⟨_, visits_mem hvisit, rfl⟩) hid
      obtain ⟨start, hstart, hvisit⟩ := ih turn.node habove (h.child habove) htop hvisit
      exact ⟨start, visits_of_turn hturn hstart, hvisit⟩
  | leaf node hleaf =>
      obtain rfl : top = node := by
        rcases mem_preorder.1 htop with rfl | ⟨above, habove, -⟩
        · rfl
        · simp [children_leaf hleaf] at habove
      exact ⟨agent, self_mem_visits _ agent, hvisit⟩

/-- In an execution no identity is visited twice. -/
theorem visits_nodup (h : node.Distinct) (agent : Agent G) :
    ((node.visits rules kept elapsed agent).map fun visit => visit.node.id).Nodup := by
  have hsublist := (visits_sublist rules kept elapsed node agent).map Node.id
  rw [List.map_map] at hsublist
  exact List.Nodup.sublist hsublist h

/-- In an execution a node is visited once at most. -/
theorem visit_unique (h : node.Distinct) {one other : Visit G}
    (hone : one ∈ node.visits rules kept elapsed agent)
    (hother : other ∈ node.visits rules kept elapsed agent) (hnode : one.node = other.node) :
    one = other :=
  List.inj_on_of_nodup_map (h.visits_nodup agent) hone hother (congrArg id hnode)

end Distinct

/-! ## Visits of a chain -/

variable {inner : Node G} {chain : List NodeId}

/-- The one turn of an inverter is that of its child, whatever the agent. -/
theorem turns_inverted (id : NodeId) (child : Node G) (agent : Agent G) :
    (child.inverted id).turns rules kept elapsed agent = [⟨child, agent⟩] := by
  rw [turns, approach_inverted]
  rfl

/-- A chain goes straight down to the node at its end. -/
theorem inner_mem_visits (inner : Node G) (chain : List NodeId) (agent : Agent G) :
    ⟨inner, agent⟩ ∈ (inner.invertedBy chain).visits rules kept elapsed agent := by
  induction chain with
  | nil => exact inner.self_mem_visits agent
  | cons id rest ih =>
      have hturn : (⟨inner.invertedBy rest, agent⟩ : Visit G) ∈
          (inner.invertedBy (id :: rest)).turns rules kept elapsed agent := by
        rw [inverted_by_cons, turns_inverted]
        exact List.mem_singleton_self _
      exact visits_of_turn hturn ih

/-- In a pass in which a node is blocked, the chain above it comes out as its length says. -/
theorem chain_blocked {root : Node G} {start : Agent G} {visit : Visit G} (hsome : 0 < chain.length)
    (hvisit : visit ∈ root.visits rules kept elapsed start)
    (hnode : visit.node = inner.invertedBy chain)
    (hblocked : ∀ low ∈ root.visits rules kept elapsed start, low.node = inner →
      low.result rules kept elapsed = .canNotExecute) :
    visit.result rules kept elapsed = if chain.length % 2 = 1 then .finished else .failed := by
  have hlow : ⟨inner, visit.agent⟩ ∈ root.visits rules kept elapsed start := by
    refine visits_trans hvisit ?_
    rw [hnode]
    exact inner_mem_visits inner chain visit.agent
  have hresult : (inner.execute rules kept elapsed visit.agent).value = .canNotExecute :=
    hblocked _ hlow rfl
  rw [Visit.result, hnode, (execute_inverted_by rules kept elapsed inner chain visit.agent).value,
    hresult, Status.invert_iterate_can_not_execute hsome]

end Node

/-! ## Results that wait -/

/-- A local game cannot name results that wait, so it leaves them alone. -/
theorem Rules.Local.respects {forest : List (Tree G)} (hrules : rules.Local forest) (id : NodeId) :
    rules.Respect (fun slot => slot = .completed) id forest := by
  have hkeeps : ∀ {α : Type} {play : Play G α} {own : NodeId}, play.LocalTo own →
      play.Keeps (.respecting (fun slot => slot = .completed) id forest) := by
    intro α play own hplay agent
    have hwrites := hplay.writes agent
    refine ⟨fun slot hslot => hwrites.spares slot id.raw fun hin => ?_,
      hwrites.spares.mono fun slot _ hin heq => ?_, fun h => hwrites.stands.behavior ▸ h⟩
    · rw [hslot] at hin
      exact hin.1
    · rw [heq] at hin
      exact hin.1
  exact fun node hnode =>
    { enter := fun leaf => hkeeps (hrules.enter leaf node.id)
      act := fun leaf elapsed => hkeeps (hrules.act leaf node.id elapsed)
      test := fun test => hkeeps (hrules.test test node)
      sift := fun name sieve hsieve => hkeeps (hrules.sift node hnode name sieve hsieve) }

/-- A result that waits for an action when a pass starts is the one that the action comes out with
when the pass comes to it. -/
theorem Node.Distinct.claims {tree : Tree G} (h : tree.toNode.Distinct)
    (hrules : rules.Local [tree]) {start : Agent G} {visit : Visit G}
    (hvisit : visit ∈ tree.toNode.visits rules kept elapsed start)
    (hleaf : visit.node.family = .action) {status : Status}
    (hwaiting : start.waiting? visit.node.id = some status) :
    visit.result rules kept elapsed = status := by
  have hroot : tree.toNode ∈ forestNodes [tree] :=
    mem_forest_nodes (List.mem_singleton_self tree) tree.toNode.self_mem_preorder
  have hoffer : visit.node ∈ forestNodes [tree] := forest_nodes_trans hroot (visits_mem hvisit)
  -- The first execution of the action is this one, and until then the result goes on waiting.
  have hlinked := ((Drift.stored_reads _ visit.node.id).outlasts (hrules.respects visit.node.id)
    (by simp)).execute_linked (Tree.distinct_forest h).unambiguous kept elapsed hoffer hroot start
  have honly : Execution.sameNode visit.node.id
      (Execution.ofNode rules kept elapsed tree.toNode start) = [⟨visit, kept, elapsed⟩] := by
    rw [Execution.sameNode, Execution.ofNode, List.filter_map]
    exact congrArg (List.map _) (filter_key (h.visits_nodup start) hvisit)
  have hhead : (Execution.sameNode visit.node.id
      (Execution.ofNode rules kept elapsed tree.toNode start)).head? =
      some ⟨visit, kept, elapsed⟩ := by
    rw [honly]
    rfl
  have hfound : visit.agent.waiting? visit.node.id = some status :=
    (hlinked.head hhead .completed rfl).trans hwaiting
  rw [Visit.result, execute_leaf hleaf, hfound]
  rfl

/-! ## Updates -/

/-- Must-complete nodes are leaves. -/
theorem Node.family_of_must_complete {node : Node G} (h : node.mustComplete) :
    node.family = .action := by
  cases node with
  | composite | decorator => cases h
  | timed | action => rfl

namespace Agent

variable {tree : Tree G} {inner : Node G} {chain : List NodeId} {agent : Agent G} {visit : Visit G}

/-- An update comes to a node in the pass through the tree, unless the node is the action that goes
first. -/
theorem update_visits_cases (hrefers : agent.Refers [tree])
    (h : visit ∈ agent.updateVisits rules kept elapsed) :
    (∃ start, agent.passStart? rules kept elapsed = some start ∧
      visit ∈ tree.toNode.visits rules (agent.alive kept) elapsed start) ∨
    agent.pressingAction? kept = some visit.node ∧ visit.agent = agent.nextTick := by
  have hcourse := update_course rules kept elapsed agent
  generalize agent.updateVisits rules kept elapsed = visits at hcourse h
  generalize Agent.update rules kept elapsed agent = outcome at hcourse
  cases hcourse with
  | idle => cases h
  | @free other root hpaused hbehavior hpressing hroot =>
      obtain rfl : other = tree := List.mem_singleton.1 (hrefers.behavior other hbehavior)
      rw [← alive_eq_in_use hbehavior] at h
      exact .inl ⟨agent.nextTick, by simp [passStart?, hpaused, hbehavior, hpressing], h⟩
  | @busy other action alone hpaused hbehavior hpressing halone hrunning =>
      rw [Node.visits_leaf (Node.family_of_must_complete (pressing_action?_eq_some.1 hpressing).2),
        List.mem_singleton] at h
      subst h
      exact .inr ⟨hpressing, rfl⟩
  | @ended other action alone root final hpaused hbehavior hpressing halone hended hroot hfinal =>
      obtain rfl : other = tree := List.mem_singleton.1 (hrefers.behavior other hbehavior)
      rw [← alive_eq_in_use hbehavior] at h halone
      rw [Node.visits_leaf (Node.family_of_must_complete (pressing_action?_eq_some.1 hpressing).2),
        List.singleton_append, List.mem_cons] at h
      rcases h with rfl | h
      · exact .inr ⟨hpressing, rfl⟩
      · refine .inl ⟨alone.agent.withWaiting action.id alone.value, ?_, h⟩
        simp [passStart?, hpaused, hbehavior, hpressing, ← halone, hended, Status.is_running_iff]

/-- An action that goes first is executed before anything else. -/
theorem ahead_mem_update_visits {action : Node G} (hpaused : agent.paused = false)
    (hbehavior : agent.behavior = some tree)
    (hpressing : agent.pressingAction? kept = some action) :
    ⟨action, agent.nextTick⟩ ∈ agent.updateVisits rules kept elapsed := by
  unfold updateVisits
  rw [if_neg (by simp [hpaused]), hbehavior, hpressing]
  exact List.mem_append_left _ (action.self_mem_visits _)

/-- Only an agent that is not paused and runs a tree comes to anything. -/
theorem active_of_visits (hrefers : agent.Refers [tree])
    (h : visit ∈ agent.updateVisits rules kept elapsed) :
    agent.paused = false ∧ agent.behavior = some tree := by
  unfold updateVisits at h
  split at h
  · cases h
  · rename_i hpaused
    cases hbehavior : agent.behavior with
    | none => simp [hbehavior] at h
    | some other =>
        obtain rfl : other = tree := List.mem_singleton.1 (hrefers.behavior other hbehavior)
        exact ⟨Bool.eq_false_iff.2 hpaused, rfl⟩

/-- An action that has ended ahead of the tree leaves its result waiting for the pass. -/
theorem pass_start_of_ended {action : Node G} (hpaused : agent.paused = false)
    (hbehavior : agent.behavior = some tree) (hpressing : agent.pressingAction? kept = some action)
    (hended : (action.execute rules (agent.alive kept) elapsed agent.nextTick).value ≠ .running) :
    ∃ start, agent.passStart? rules kept elapsed = some start ∧ start.waiting? action.id =
      some (action.execute rules (agent.alive kept) elapsed agent.nextTick).value := by
  generalize halone : action.execute rules (agent.alive kept) elapsed agent.nextTick = alone at *
  refine ⟨alone.agent.withWaiting action.id alone.value, ?_, waiting?_with_waiting_self _ _ _⟩
  simp [passStart?, hpaused, hbehavior, hpressing, halone, hended, Status.is_running_iff]

/-- A node that is blocked in an update is blocked in the pass through the tree as well, if the pass
comes to it. It does so unless the node is the action that goes first. -/
theorem blocked_in_pass (hrules : rules.Local [tree]) (hdistinct : tree.toNode.Distinct)
    (hrefers : agent.Refers [tree]) (h : visit ∈ agent.updateVisits rules kept elapsed)
    (hblocked : visit.result rules (agent.alive kept) elapsed = .canNotExecute) :
    ∃ start, agent.passStart? rules kept elapsed = some start ∧
      (∀ low ∈ tree.toNode.visits rules (agent.alive kept) elapsed start, low.node = visit.node →
        low.result rules (agent.alive kept) elapsed = .canNotExecute) ∧
      ((∃ low ∈ tree.toNode.visits rules (agent.alive kept) elapsed start,
        low.node = visit.node) ∨ agent.pressingAction? kept = some visit.node) := by
  rcases update_visits_cases hrefers h with ⟨start, hstart, hvisit⟩ | ⟨hpressing, hagent⟩
  · refine ⟨start, hstart, fun low hlow heq => ?_, .inl ⟨visit, hvisit, rfl⟩⟩
    rw [hdistinct.visit_unique hlow hvisit heq]
    exact hblocked
  · obtain ⟨action, ahead⟩ := visit
    subst hagent
    have hresult : (action.execute rules (agent.alive kept) elapsed agent.nextTick).value =
        .canNotExecute := hblocked
    obtain ⟨hpaused, hbehavior⟩ := active_of_visits hrefers h
    have hended : (action.execute rules (agent.alive kept) elapsed agent.nextTick).value ≠
        .running := hresult ▸ nofun
    obtain ⟨start, hstart, hwaiting⟩ := pass_start_of_ended hpaused hbehavior hpressing hended
    refine ⟨start, hstart, fun low hlow heq => ?_, .inr hpressing⟩
    have hleaf := Node.family_of_must_complete (pressing_action?_eq_some.1 hpressing).2
    refine hdistinct.claims hrules hlow (heq ▸ hleaf) ?_
    rw [heq, hwaiting, hresult]

/-- The chain above a node in an update in which the node is blocked: every execution of the top
comes out as the length says, and there is one unless the node is a must-complete action that was
blocked ahead of the tree and the pass that follows does not come to it. -/
structure ChainBlocked (rules : Rules G) (tree : Tree G) (inner : Node G) (chain : List NodeId)
    (kept : NodeId → Bool) (elapsed : Nat) (agent : Agent G) : Prop where
  result : ∀ top ∈ agent.updateVisits rules kept elapsed, top.node = inner.invertedBy chain →
    top.result rules (agent.alive kept) elapsed =
      if chain.length % 2 = 1 then .finished else .failed
  reached : (∃ top ∈ agent.updateVisits rules kept elapsed, top.node = inner.invertedBy chain) ∨
    agent.pressingAction? kept = some inner ∧
      ∃ start, agent.passStart? rules kept elapsed = some start ∧
        ∀ low ∈ tree.toNode.visits rules (agent.alive kept) elapsed start, low.node ≠ inner

/-- An update in which a node is blocked: what comes of the chain is decided in the pass. -/
theorem update_blocked (hrules : rules.Local [tree]) (hdistinct : tree.toNode.Distinct)
    (hmem : inner.invertedBy chain ∈ tree.toNode.preorder) (hsome : 0 < chain.length)
    (hrefers : agent.Refers [tree]) (h : visit ∈ agent.updateVisits rules kept elapsed)
    (hnode : visit.node = inner)
    (hblocked : visit.result rules (agent.alive kept) elapsed = .canNotExecute) :
    agent.ChainBlocked rules tree inner chain kept elapsed := by
  obtain ⟨start, hstart, hpass, hcomes⟩ := blocked_in_pass hrules hdistinct hrefers h hblocked
  rw [hnode] at hpass hcomes
  constructor
  case result =>
    intro top htop heq
    rcases update_visits_cases hrefers htop with ⟨other, hother, htop⟩ | ⟨hpressing, -⟩
    · obtain rfl : start = other := Option.some.inj (hstart.symm.trans hother)
      exact Node.chain_blocked hsome htop heq hpass
    · -- The top of a chain is no action.
      have hleaf := Node.family_of_must_complete (pressing_action?_eq_some.1 hpressing).2
      obtain ⟨first, rest, rfl⟩ := List.exists_cons_of_length_pos hsome
      rw [heq, Node.inverted_by_cons] at hleaf
      exact absurd hleaf (Node.family_inverted first (inner.invertedBy rest))
  case reached =>
    by_cases hreached : ∃ low ∈ tree.toNode.visits rules (agent.alive kept) elapsed start,
        low.node = inner
    · obtain ⟨low, hlow, heq⟩ := hreached
      have hbelow : low.node ∈ (inner.invertedBy chain).preorder :=
        heq ▸ Node.inner_mem_inverted_by inner chain
      obtain ⟨above, habove, -⟩ := hdistinct.visits_through hmem hlow hbelow
      have hsuffix := (update_pass_start (active_of_visits hrefers h).2 hstart).1
      exact .inl ⟨_, hsuffix.subset habove, rfl⟩
    · exact .inr ⟨hcomes.resolve_left hreached, start, hstart,
        fun low hlow heq => hreached ⟨low, hlow, heq⟩⟩

end Agent

/-! ## Runs -/

/-- An agent that is given a tree, and keeps it, refers to nothing else. -/
theorem Command.play_all_refers {tree : Tree G} (hrules : rules.Local [tree])
    {commands : List (Command G)} (hcommands : ∀ command ∈ commands, command.LeavesTree)
    (entity : EntityId) :
    (playAll rules (.setBehavior kept tree :: commands) (Agent.fresh entity)).agent.Refers
      [tree] := by
  have hloyal : rules.Loyal [tree] := (hrules.respects ⟨0⟩).loyal
  have hfresh : (Agent.fresh entity : Agent G).Refers [tree] := ⟨nofun, nofun⟩
  have hwithin : ∀ command ∈ Command.setBehavior kept tree :: commands, command.Within [tree] :=
    List.forall_mem_cons.2 ⟨List.mem_singleton_self tree,
      fun command hcommand => (hcommands command hcommand).within [tree]⟩
  have hkeeps : (playAll rules (.setBehavior kept tree :: commands)).Keeps (.referring [tree]) :=
    play_all_keeps fun command hcommand => play_refers hloyal (hwithin command hcommand)
  exact hkeeps (Agent.fresh entity) hfresh

/-- Inverters without gates in a chain, anywhere in a tree. As long as the node at the end comes out
running, finished or failed, nobody sees which of two chains of the same parity stands there: of an
agent that runs the one tree one sees, command by command, the same status, the same calls of leaves
and conditions in the same order, the same selection and the same current action as of one that runs
the other. So a chain of even length is not seen at all, and one of odd length passes for a single
inverter.

In an update in which the node is blocked, every execution of the top of the chain comes out
finished or failed, by the parity. The top is executed in it, unless the node is a must-complete
action that was blocked ahead of the tree and the pass that follows does not come to it. -/
theorem inverters_unseen {tree flat : Tree G} {inner : Node G} {short chain : List NodeId}
    (hrules : rules.Local [tree, flat]) (hshallow : rules.Shallow)
    (hdistinct : tree.toNode.Distinct) (hdistinct' : flat.toNode.Distinct)
    (hgrafts : (inner.invertedBy short).Grafts (inner.invertedBy chain) tree.toNode flat.toNode)
    (hparity : short.length % 2 = chain.length % 2) {commands : List (Command G)}
    (hcommands : ∀ command ∈ commands, command.LeavesTree) (entity : EntityId)
    (kept : NodeId → Bool) :
    (∀ either ∈ [tree, flat],
      (∀ execution ∈ executions (Command.playAll rules (.setBehavior kept either :: commands)
        (Agent.fresh entity)).notes, inner.Undone execution) →
      Command.scenes rules kept (.setBehavior kept tree :: commands) (Agent.fresh entity) =
        Command.scenes rules kept (.setBehavior kept flat :: commands) (Agent.fresh entity)) ∧
    (0 < chain.length → ∀ agent,
      (Command.playAll rules (.setBehavior kept flat :: commands) (Agent.fresh entity)).agent =
        agent →
      ∀ (kept : NodeId → Bool) (elapsed : Nat), ∀ visit ∈ agent.updateVisits rules kept elapsed,
        visit.node = inner → visit.result rules (agent.alive kept) elapsed = .canNotExecute →
        agent.ChainBlocked rules flat inner chain kept elapsed) := by
  have hlocal : rules.Local [tree] := hrules.mono (by simp)
  have hlocal' : rules.Local [flat] := hrules.mono (by simp)
  constructor
  · intro either heither hdecided
    rcases List.mem_cons.1 heither with rfl | heither
    · have hgraft := hgrafts.graft_inverters hlocal hshallow hdistinct hdistinct' hparity
      exact hgraft.unseen hcommands entity kept trivial hdecided
    -- The condition may be about either run, as grafts can be turned around.
    · obtain rfl := List.mem_singleton.1 heither
      have hgraft := hgrafts.symm.graft_inverters hlocal' hshallow hdistinct' hdistinct hparity.symm
      exact (hgraft.unseen hcommands entity kept trivial hdecided).symm
  · rintro hsome agent rfl kept elapsed visit hvisit hnode hblocked
    exact Agent.update_blocked hlocal' hdistinct' hgrafts.new_mem hsome
      (Command.play_all_refers hlocal' hcommands entity) hvisit hnode hblocked

/-- A must-complete wait for as long as anything is selected. -/
def vigil : Node (Game.clocked Unit) := .timed ⟨⟨0⟩, some (.selection none)⟩ 5 true

/-- The wait below a chain of inverters, in a sequence that may have a gate. -/
def vigilTree (gate : Option (Condition (Game.clocked Unit))) (chain : List NodeId) :
    Tree (Game.clocked Unit) where
  head := ⟨⟨4⟩, none⟩
  name := "vigil"
  child := some (.composite ⟨⟨3⟩, gate⟩ .sequence [vigil.invertedBy chain])

/-- The wait goes on for two updates, and then nothing is selected any more. -/
def vigilCommands : List (Command (Game.clocked Unit)) :=
  [.setSelection [9], .update (fun _ => false) 1, .update (fun _ => false) 2, .setSelection []]

/-- The agent that these commands leave behind. -/
def vigilAgent (tree : Tree (Game.clocked Unit)) : Agent (Game.clocked Unit) :=
  (Command.playAll (Rules.clocked deadline) (.setBehavior (fun _ => false) tree :: vigilCommands)
    (Agent.fresh 7)).agent

/-- With the sequence open or closed, the wait is blocked ahead of the tree. -/
theorem vigil_blocked {gate : Option (Condition (Game.clocked Unit))}
    (hgate : gate ∈ [none, some (.selection none)]) :
    let rules := Rules.clocked deadline
    let kept := fun _ : NodeId => false
    let agent := vigilAgent (vigilTree gate [⟨2⟩, ⟨1⟩])
    ∃ visit ∈ agent.updateVisits rules kept 1, visit.node = vigil ∧
      visit.result rules (agent.alive kept) 1 = .canNotExecute := by
  simp only [List.mem_cons, List.not_mem_nil, or_false] at hgate
  rcases hgate with rfl | rfl
  · have hpressing : (vigilAgent (vigilTree none [⟨2⟩, ⟨1⟩])).pressingAction? (fun _ => false) =
        some vigil := by rfl
    exact ⟨_, Agent.ahead_mem_update_visits rfl rfl hpressing, rfl, by decide +kernel⟩
  · have hpressing : (vigilAgent (vigilTree (some (.selection none)) [⟨2⟩, ⟨1⟩])).pressingAction?
        (fun _ => false) = some vigil := by rfl
    exact ⟨_, Agent.ahead_mem_update_visits rfl rfl hpressing, rfl, by decide +kernel⟩

/-- Nobody sees two inverters above the wait until it is blocked, in the next update. It is blocked
ahead of the tree, and it hands its result over to the chain, which comes out failed. -/
theorem inverters_unseen_vigil :
    let rules := Rules.clocked deadline
    let kept := fun _ : NodeId => false
    let chain : List NodeId := [⟨2⟩, ⟨1⟩]
    let agent := vigilAgent (vigilTree none chain)
    Command.scenes rules kept (.setBehavior kept (vigilTree none []) :: vigilCommands)
        (Agent.fresh 7) =
      Command.scenes rules kept (.setBehavior kept (vigilTree none chain) :: vigilCommands)
        (Agent.fresh 7) ∧
    agent.ChainBlocked rules (vigilTree none chain) vigil chain kept 1 ∧
    (agent.updateVisits rules kept 1).map (fun visit =>
        (visit.node.id.raw, visit.result rules (agent.alive kept) 1)) =
      [(0, .canNotExecute), (4, .failed), (3, .failed), (2, .failed), (1, .finished),
        (0, .canNotExecute)] := by
  intro rules kept chain agent
  have hcommands : ∀ command ∈ vigilCommands, command.LeavesTree := by
    simp [vigilCommands, Command.LeavesTree]
  have hgrafts : (vigil.invertedBy []).Grafts (vigil.invertedBy chain) (vigilTree none []).toNode
      (vigilTree none chain).toNode := .decorator (.composite .here _ _ [] []) _ _
  obtain ⟨hscenes, hblocked⟩ := inverters_unseen
    (Rules.clocked_local deadline [vigilTree none [], vigilTree none chain])
    (Rules.clocked_shallow deadline) (by unfold Node.Distinct; decide)
    (by unfold Node.Distinct; decide) hgrafts (by decide) hcommands 7 kept
  have hdecided : ∀ execution ∈ executions (Command.playAll rules
      (.setBehavior kept (vigilTree none chain) :: vigilCommands) (Agent.fresh 7)).notes,
      execution.2.IsDecided := by
    unfold Status.IsDecided
    decide +kernel
  have hunseen := hscenes _ (List.mem_cons_of_mem _ List.mem_cons_self)
    fun execution hexecution _ => hdecided execution hexecution
  obtain ⟨visit, hvisit, hnode, hresult⟩ := vigil_blocked (List.mem_cons_self (a := none))
  refine ⟨hunseen, ?_, ?_⟩
  · exact hblocked (by decide) agent rfl kept 1 visit hvisit hnode hresult
  · decide +kernel

/-- Behind a gate that has closed as well, the chain is not executed in the update in which the wait
is blocked: the pass through the tree ends at the sequence. -/
theorem closed_gate_hides_chain :
    let rules := Rules.clocked deadline
    let kept := fun _ : NodeId => false
    let tree := vigilTree (some (.selection none)) [⟨2⟩, ⟨1⟩]
    let agent := vigilAgent tree
    tree.toNode.Distinct ∧ vigil.invertedBy [⟨2⟩, ⟨1⟩] ∈ tree.toNode.preorder ∧
      (∃ visit ∈ agent.updateVisits rules kept 1, visit.node = vigil ∧
        visit.result rules (agent.alive kept) 1 = .canNotExecute) ∧
      ∀ top ∈ agent.updateVisits rules kept 1, top.node ≠ vigil.invertedBy [⟨2⟩, ⟨1⟩] := by
  intro rules kept tree agent
  have hmissed : ∀ id ∈ (agent.updateVisits rules kept 1).map (fun visit => visit.node.id),
      id ≠ ⟨2⟩ := by
    decide +kernel
  refine ⟨by unfold Node.Distinct; decide, List.mem_of_getElem? (i := 2) rfl,
    vigil_blocked (List.mem_cons_of_mem _ List.mem_cons_self), ?_⟩
  intro top htop heq
  exact hmissed top.node.id (List.mem_map_of_mem htop) (congrArg Node.id heq)

end BehaviorTree
