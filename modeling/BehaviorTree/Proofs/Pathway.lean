import BehaviorTree.Proofs.Running

/-!
# The way down to a running node

In a tree in which only leaves have gates and nothing is a limit, every node above a running one
is running, and stands at the next one on the way down (`Node.Tracked.leads`). An execution goes
all that way (`Node.Leads.visited`), also when a must-complete action at the end of it has ended
outside the tree: the composites and decorators above stand where they stood (`Drift.inner`).

Updates keep it so, the ones in the course of which an action ends included
(`Agent.update_pathed`). Hence a pass leaves out no running node, it always comes to an action
that ended before it, and where the root is not running nothing below it is
(`resumption_complete`).
-/

namespace BehaviorTree

variable {G : Game} {rules : Rules G} {kept : NodeId → Bool} {elapsed : Nat}

namespace Node

/-! ## Visits and their parents -/

/-- An execution of a node visits it. -/
theorem self_mem_visits (node : Node G) (agent : Agent G) :
    ⟨node, agent⟩ ∈ node.visits rules kept elapsed agent := by
  rw [visits_eq]
  exact List.mem_cons_self

/-- What the execution of a child visits is visited by that of its parent. -/
theorem visits_of_turn {node : Node G} {agent : Agent G} {turn visit : Visit G}
    (hturn : turn ∈ node.turns rules kept elapsed agent)
    (hvisit : visit ∈ turn.node.visits rules kept elapsed turn.agent) :
    visit ∈ node.visits rules kept elapsed agent := by
  rw [visits_eq]
  exact List.mem_cons_of_mem _ (List.mem_flatMap.2 ⟨turn, hturn, hvisit⟩)

/-- What an execution comes to besides the node itself is a turn of something it comes to. -/
theorem visits_parent {node : Node G} {agent : Agent G} {visit : Visit G}
    (h : visit ∈ node.visits rules kept elapsed agent) :
    visit = ⟨node, agent⟩ ∨ ∃ parent ∈ node.visits rules kept elapsed agent,
      visit ∈ parent.node.turns rules kept elapsed parent.agent := by
  induction node using by_family generalizing agent with
  | inner node _ ih =>
      rw [visits_eq] at h
      rcases List.mem_cons.1 h with rfl | hbelow
      · exact .inl rfl
      obtain ⟨turn, hturn, hvisit⟩ := List.mem_flatMap.1 hbelow
      rcases ih turn.node (turns_mem hturn) hvisit with rfl | ⟨parent, hparent, hmem⟩
      · exact .inr ⟨⟨node, agent⟩, node.self_mem_visits agent, hturn⟩
      · exact .inr ⟨parent, visits_of_turn hturn hparent, hmem⟩
  | leaf node hleaf =>
      rw [visits_leaf hleaf, List.mem_singleton] at h
      exact .inl h

/-! ## The turn of the child that a node stands at -/

/-- A walk that begins at a child gives it its turn. -/
theorem walk_turns_at (advance : Status) {children : List (Node G)} {index : Nat} {child : Node G}
    (h : children[index]? = some child) (agent : Agent G) :
    ⟨child, agent⟩ ∈ walkTurns rules kept elapsed advance index children agent := by
  induction children generalizing index with
  | nil => simp at h
  | cons first rest ih =>
      cases index with
      | zero =>
          obtain rfl := Option.some.inj h
          exact List.mem_cons_self
      | succ index => exact ih h

/-- Where all children get a turn, each finds its own entries as they were. -/
theorem all_turns_of_mem (hrules : rules.Modest) {children : List (Node G)}
    (hdisjoint : children.Pairwise fun left right => ∀ id ∈ left.ids, id ∉ right.ids)
    {child : Node G} (hchild : child ∈ children) (agent : Agent G) :
    ∃ turn ∈ allTurns rules kept elapsed children agent, turn.node = child ∧
      ∀ id ∈ child.ids, (Drift.entries id).rel agent turn.agent := by
  induction children generalizing agent with
  | nil => cases hchild
  | cons first rest ih =>
      obtain ⟨hfirst, hrest⟩ := List.pairwise_cons.1 hdisjoint
      rcases List.mem_cons.1 hchild with rfl | hmem
      · exact ⟨⟨child, agent⟩, List.mem_cons_self, rfl, fun id _ => (Drift.entries id).refl agent⟩
      · obtain ⟨turn, hturn, hnode, hkept⟩ :=
          ih hrest hmem (first.execute rules kept elapsed agent).agent
        refine ⟨turn, List.mem_cons_of_mem _ hturn, hnode, ?_⟩
        intro id hid
        have hapart : id ∉ first.ids := fun hid' => hfirst child hmem id hid' hid
        exact (Drift.entries id).trans
          (Drift.execute_entries hrules kept elapsed hapart agent) (hkept id hid)

/-- An unbarred node gives the child that it stands at a turn, with the child's own entries as
they were. -/
theorem turn_at (hrules : rules.Modest) {node child : Node G} (hunbarred : node.Unbarred)
    (hdistinct : node.Distinct) {index : Nat} (hchild : node.children[index]? = some child)
    {agent : Agent G} (hstands : node.StandsAt index agent) :
    ∃ turn ∈ node.turns rules kept elapsed agent, turn.node = child ∧
      ∀ id ∈ child.ids, (Drift.entries id).rel agent turn.agent := by
  have hmem : child ∈ node.children := List.mem_of_getElem? hchild
  have hinner : node.family ≠ .action := by
    intro hleaf
    simp [children_leaf hleaf] at hmem
  have hturns : node.turns rules kept elapsed agent = node.logicTurns rules kept elapsed agent := by
    rw [turns, approach_of_running (hunbarred.gate_eq_none hinner) hstands.1]
    rfl
  rw [hturns]
  cases node with
  | composite head kind children =>
      rw [logicTurns]
      cases hkind : kind.advance? with
      | some advance =>
          -- The walk begins at the child, so nothing comes before it.
          have hposition : agent.resumeIndexOf head.id = index := by
            have hindex : agent.position? head.id = some index :=
              hstands.2 (by simp [Walks, hkind])
            rw [Agent.resume_index_of_eq, hindex]
            rfl
          dsimp only
          rw [hposition]
          exact ⟨⟨child, agent⟩, walk_turns_at advance hchild agent, rfl,
            fun id _ => (Drift.entries id).refl agent⟩
      | none => exact all_turns_of_mem hrules hdistinct.children_disjoint hmem agent
  | decorator head kind below =>
      have hunspent : (spent head.id kind agent).value = false :=
        Bool.eq_false_iff.2 (hunbarred.not_spent agent)
      rw [logicTurns, hunspent]
      exact all_turns_of_mem hrules hdistinct.children_disjoint hmem agent
  | timed | action => exact absurd rfl hinner

/-! ## The way down -/

/-- From a node down to a low one every node stands at the next one on the way. -/
inductive Leads (agent : Agent G) (low : Node G) : Node G → Prop where
  | here : Leads agent low low
  | down {node child : Node G} {index : Nat} (hchild : node.children[index]? = some child)
      (hstands : node.StandsAt index agent) (hbelow : Leads agent low child) :
      Leads agent low node

/-- The node at the end of the way is at or below the one at its beginning. -/
theorem Leads.mem_preorder {agent : Agent G} {low node : Node G} (h : Leads agent low node) :
    low ∈ node.preorder := by
  induction h with
  | here => exact low.self_mem_preorder
  | down hchild _ _ ih =>
      exact preorder_trans (child_mem_preorder (List.mem_of_getElem? hchild)) ih

variable {node low : Node G} {agent : Agent G}

/-- A node leads to everything below it that is running, and is then running itself. -/
theorem Tracked.leads (h : node.Tracked (fun other => other.gate = none) agent)
    (hunbarred : ∀ other ∈ node.preorder, other.Unbarred) (hlow : low ∈ node.preorder)
    (hrunning : agent.statusOf low.id = .running) :
    agent.statusOf node.id = .running ∧ Leads agent low node := by
  refine h.ascend hlow ?_ ?_ hrunning .here ?_
  · intro other hother hbelow
    refine (hunbarred other hother).gate_eq_none fun hleaf => ?_
    simp [descendants, children_leaf hleaf] at hbelow
  · exact fun other hother _ => (hunbarred other hother).not_spent agent
  · exact fun _ _ _ _ _ hchild hstands hbelow => .down hchild hstands hbelow

/-- A node with a running node at or below a child is running itself, at that child. -/
theorem Tracked.stands_at (h : node.Tracked (fun other => other.gate = none) agent)
    (hunbarred : ∀ other ∈ node.preorder, other.Unbarred) {index : Nat} {child : Node G}
    (hchild : node.children[index]? = some child) (hlow : low ∈ child.preorder)
    (hrunning : agent.statusOf low.id = .running) : node.StandsAt index agent := by
  have hmem := child_mem_preorder (List.mem_of_getElem? hchild)
  have hself := hunbarred node node.self_mem_preorder
  have hinner : node.family ≠ .action := by
    intro hleaf
    simp [children_leaf hleaf] at hchild
  have hrun := ((h.of_mem hmem).leads
    (fun other hother => hunbarred other (preorder_trans hmem hother)) hlow hrunning).1
  exact (h node node.self_mem_preorder (hself.gate_eq_none hinner) index child hchild
    hrun).resolve_right (hself.not_spent agent)

end Node

/-- Nothing is stored anew for the composites and decorators at and below a node. -/
def Drift.inner (node : Node G) : Drift G where
  rel before after := ∀ other ∈ node.preorder, other.family ≠ .action →
    (Drift.entries other.id).rel before after
  refl agent other _ _ := (Drift.entries other.id).refl agent
  trans hfirst hsecond other hother hinner :=
    (Drift.entries other.id).trans (hfirst other hother hinner) (hsecond other hother hinner)

/-- What touches the entries of a leaf alone stores nothing for composites and decorators. -/
theorem Drift.inner_of_leaf {node action : Node G} (hdistinct : node.Distinct)
    (haction : action ∈ node.preorder) (hleaf : action.family = .action)
    {before after : Agent G}
    (h : ∀ id, id ≠ action.id → (Drift.entries id).rel before after) :
    (Drift.inner node).rel before after := by
  intro other hother hinner
  refine h other.id fun heq => hinner ?_
  rw [List.inj_on_of_nodup_map hdistinct hother haction heq, hleaf]

namespace Node

variable {node low : Node G} {agent start : Agent G}

/-- A pass goes all the way down to what its root leads to. It may start from another agent, as
long as that stores the same for composites and decorators. -/
theorem Leads.visited (h : Leads agent low node) (hrules : rules.Modest)
    (kept : NodeId → Bool) (elapsed : Nat) (hdistinct : node.Distinct)
    (hunbarred : ∀ other ∈ node.preorder, other.Unbarred)
    (hstart : (Drift.inner node).rel agent start) :
    ∃ visit ∈ node.visits rules kept elapsed start, visit.node = low ∧
      ∀ id ∈ low.ids, (Drift.entries id).rel start visit.agent := by
  induction h generalizing start with
  | here => exact ⟨_, low.self_mem_visits start, rfl, fun id _ => (Drift.entries id).refl start⟩
  | @down node child index hchild hstands hbelow ih =>
      have hmem : child ∈ node.children := List.mem_of_getElem? hchild
      have hinside : ∀ other ∈ child.preorder, other ∈ node.preorder := fun other hother =>
        preorder_trans (child_mem_preorder hmem) hother
      have hinner : node.family ≠ .action := by
        intro hleaf
        simp [children_leaf hleaf] at hmem
      -- Composites and decorators are as the path was found, so the pass takes it too.
      have hstill : node.StandsAt index start :=
        hstands.of_spares (hstart node node.self_mem_preorder hinner)
          (by simp [Region.elsewhere, Slot.IsGame]) (by simp [Region.elsewhere, Slot.IsGame])
      obtain ⟨turn, hturn, rfl, hkept⟩ := turn_at hrules (hunbarred node node.self_mem_preorder)
        hdistinct hchild hstill
      obtain ⟨visit, hvisit, hnode, hlow⟩ := ih (hdistinct.child hmem)
        (fun other hother => hunbarred other (hinside other hother)) (fun other hother hother' =>
          (Drift.entries other.id).trans (hstart other (hinside other hother) hother')
            (hkept other.id (mem_ids.2 ⟨other, hother, rfl⟩)))
      refine ⟨visit, visits_of_turn hturn hvisit, hnode, ?_⟩
      intro id hid
      exact (Drift.entries id).trans (hkept id (ids_subset hbelow.mem_preorder hid)) (hlow id hid)

/-! ## Keeping track -/

/-- Whoever stores the same for composites and decorators, and no more nodes as running, keeps
track as well. -/
theorem Tracked.of_inner {steady : Node G → Prop} {before after : Agent G}
    (h : node.Tracked steady before) (hinner : (Drift.inner node).rel before after)
    (hrunning : ∀ low ∈ node.preorder, after.statusOf low.id = .running →
      before.statusOf low.id = .running) : node.Tracked steady after := by
  intro other hother hsteady
  by_cases hleaf : other.family = .action
  · intro index child hchild
    simp [children_leaf hleaf] at hchild
  · refine (h other hother hsteady).congr (hinner other hother hleaf) fun child hchild => ?_
    exact hrunning child (preorder_trans hother (child_mem_preorder hchild))

/-- An execution keeps track of the children of all nodes without gates. -/
theorem Tracked.execute (h : node.Tracked (fun other => other.gate = none) agent)
    (hrules : rules.Modest) (hdistinct : node.Distinct) (kept : NodeId → Bool) (elapsed : Nat) :
    node.Tracked (fun other => other.gate = none)
      (node.execute rules kept elapsed agent).agent := by
  refine (execute_tracked hrules kept elapsed hdistinct h).1 ?_
  intro visit _ hgate
  show (visit.node.approach rules visit.agent).value = true
  simp [approach, Node.open, hgate]

end Node

/-! ## Runs on a single tree -/

/-- Between two updates of an agent that runs a single tree the agent also keeps track of the
children of all nodes without gates. -/
structure Agent.Pathed (rules : Rules G) (tree : Tree G) (history : List Note) (agent : Agent G) :
    Prop extends agent.Backed rules tree history where
  tracked : tree.toNode.Tracked (fun node => node.gate = none) agent

namespace Agent

variable {tree : Tree G} {action : Node G} {history : List Note} {agent : Agent G}

/-- The agent that the root of the tree finds in an update, if the update comes to it: a pressing
action goes first, and keeps the update for itself while it is running. -/
def passStart? (rules : Rules G) (kept : NodeId → Bool) (elapsed : Nat) (agent : Agent G) :
    Option (Agent G) :=
  if agent.paused ∨ agent.behavior.isNone then none
  else match agent.pressingAction? kept with
    | none => some agent.nextTick
    | some action =>
        let alone := action.execute rules (agent.alive kept) elapsed agent.nextTick
        if alone.value.isRunning then none
        else some (alone.agent.withWaiting action.id alone.value)

/-- A pass is what an update ends with, and its result is that of the update. All that comes after
it is that a result that was not claimed is dropped. -/
theorem update_pass_start {start : Agent G} (hbehavior : agent.behavior = some tree)
    (h : agent.passStart? rules kept elapsed = some start) :
    tree.toNode.visits rules (agent.alive kept) elapsed start <:+
        agent.updateVisits rules kept elapsed ∧
      (Agent.update rules kept elapsed agent).value =
        (tree.toNode.execute rules (agent.alive kept) elapsed start).value ∧
      (pass rules (agent.alive kept) elapsed tree start).agent.Touches
        (fun slot _ => slot = .completed) (Agent.update rules kept elapsed agent).agent := by
  have hcourse := update_course rules kept elapsed agent
  generalize agent.updateVisits rules kept elapsed = visits at hcourse ⊢
  generalize Agent.update rules kept elapsed agent = outcome at hcourse ⊢
  rw [passStart?, alive_eq_in_use hbehavior] at h
  rw [alive_eq_in_use hbehavior]
  cases hcourse with
  | idle hidle =>
      rw [hbehavior] at hidle
      simp [hidle.resolve_right (by simp)] at h
  | @free other root hpaused hother hpressing hroot =>
      obtain rfl : other = tree := Option.some.inj (hother.symm.trans hbehavior)
      obtain rfl : agent.nextTick = start := by simpa [hpaused, hbehavior, hpressing] using h
      subst hroot
      exact ⟨List.suffix_refl _, rfl, .refl _⟩
  -- The action keeps the update for itself, so there is no pass to start.
  | @busy other action alone hpaused hother hpressing halone hrunning =>
      obtain rfl : other = tree := Option.some.inj (hother.symm.trans hbehavior)
      rw [halone] at hrunning
      simp [hpaused, hbehavior, hpressing, hrunning, Status.is_running_iff] at h
  | @ended other action alone root final hpaused hother hpressing halone hended hroot hfinal =>
      obtain rfl : other = tree := Option.some.inj (hother.symm.trans hbehavior)
      have hstart : alone.agent.withWaiting action.id alone.value = start := by
        simpa [hpaused, hbehavior, hpressing, ← halone, hended, Status.is_running_iff] using h
      subst hstart hfinal hroot
      exact ⟨List.suffix_append _ _, rfl, ⟨rfl, rfl, rfl, rfl, rfl, rfl⟩, rfl,
        Agent.spares_forget _ _ rfl⟩

/-- Executed alone, an action touches nothing that composites and decorators store. -/
theorem inner_alone (hrules : rules.Modest) (hdistinct : tree.toNode.Distinct)
    (haction : action ∈ tree.toNode.preorder) (hleaf : action.family = .action)
    (kept : NodeId → Bool) (elapsed : Nat) (agent : Agent G) :
    (Drift.inner tree.toNode).rel agent
      (action.execute rules kept elapsed agent.nextTick).agent := by
  refine Drift.inner_of_leaf hdistinct haction hleaf fun id hne => ?_
  exact Drift.execute_entries hrules kept elapsed (Node.not_mem_ids_leaf hleaf hne) agent.nextTick

/-- Neither does its result while it waits. -/
theorem inner_handed (hrules : rules.Modest) (hdistinct : tree.toNode.Distinct)
    (haction : action ∈ tree.toNode.preorder) (hleaf : action.family = .action)
    (kept : NodeId → Bool) (elapsed : Nat) (agent : Agent G) (status : Status) :
    (Drift.inner tree.toNode).rel agent
      ((action.execute rules kept elapsed agent.nextTick).agent.withWaiting action.id status) := by
  refine (Drift.inner tree.toNode).trans
    (inner_alone hrules hdistinct haction hleaf kept elapsed agent) ?_
  refine Drift.inner_of_leaf hdistinct haction hleaf fun id hne => ?_
  exact spares_with_waiting _ _ status (.inr (.inr fun heq => hne (NodeId.raw_inj.1 heq).symm))

/-- An action that was running makes no other node running. -/
theorem running_alone (hrules : rules.Modest) (hleaf : action.family = .action)
    (hrunning : agent.statusOf action.id = .running) (kept : NodeId → Bool) (elapsed : Nat)
    {id : NodeId}
    (h : (action.execute rules kept elapsed agent.nextTick).agent.statusOf id = .running) :
    agent.statusOf id = .running := by
  by_cases hid : id = action.id
  · rw [hid]
    exact hrunning
  · rw [Node.status_of_execute_of_not_mem hrules kept elapsed
      (Node.not_mem_ids_leaf hleaf hid)] at h
    exact h

/-- A pressing action is a running action of the tree. -/
theorem Pathed.pressing (h : agent.Pathed rules tree history) (hdecided : rules.Decided)
    (hpressing : agent.pressingAction? kept = some action) :
    action ∈ tree.toNode.preorder ∧ action.family = .action ∧
      agent.statusOf action.id = .running := by
  have hheld := (current_action?_eq_some.1 (pressing_action?_eq_some.1 hpressing).1).1
  obtain ⟨⟨hmem, hleaf⟩, hunended⟩ := h.attentive.held action hheld
  refine ⟨?_, hleaf, hunended.running hdecided⟩
  simpa [forestNodes] using hmem

/-- The root finds composites and decorators as the update found them. -/
theorem Pathed.inner_pass_start (h : agent.Pathed rules tree history) (hrules : rules.Modest)
    (hdecided : rules.Decided) (hdistinct : tree.toNode.Distinct) {start : Agent G}
    (hstart : agent.passStart? rules kept elapsed = some start) :
    (Drift.inner tree.toNode).rel agent start := by
  rw [passStart?] at hstart
  split at hstart
  · cases hstart
  cases hpressing : agent.pressingAction? kept with
  | none =>
      rw [hpressing] at hstart
      obtain rfl := Option.some.inj hstart
      exact fun other _ _ slot key _ => rfl
  | some action =>
      obtain ⟨hmem, hleaf, -⟩ := h.pressing hdecided hpressing
      rw [hpressing] at hstart
      dsimp only at hstart
      split at hstart
      · cases hstart
      · obtain rfl := Option.some.inj hstart
        exact inner_handed hrules hdistinct hmem hleaf _ elapsed agent _

/-- An update keeps track, whichever course it takes. -/
theorem update_pathed (hrules : rules.Modest) (hdecided : rules.Decided)
    (hdistinct : tree.toNode.Distinct) (kept : NodeId → Bool) (elapsed : Nat) :
    (Agent.update rules kept elapsed).Keeps (.invariant (Pathed rules tree)) := by
  intro agent history h
  have hforest : Unambiguous [tree] := (Tree.distinct_forest hdistinct).unambiguous
  have hbacked := update_backed hrules hdecided hforest kept elapsed agent history h.toBacked
  have hcourse := update_course rules kept elapsed agent
  generalize agent.updateVisits rules kept elapsed = visits at hcourse
  generalize Agent.update rules kept elapsed agent = outcome at hcourse hbacked ⊢
  cases hcourse with
  | idle => exact ⟨hbacked, h.tracked⟩
  | @free other root hpaused hbehavior hpressing hroot =>
      obtain rfl := List.mem_singleton.1 (h.behavior other hbehavior)
      have hnext : other.toNode.Tracked (fun node => node.gate = none) agent.nextTick :=
        h.tracked.of_context rfl
      have hpassed := hnext.execute hrules hdistinct (other.inUse kept) elapsed
      rw [← hroot] at hpassed
      exact ⟨hbacked, hpassed.of_context rfl⟩
  | @busy other action alone hpaused hbehavior hpressing halone hrunning =>
      obtain ⟨hmem, hleaf, hbefore⟩ := h.pressing hdecided hpressing
      -- The action was running before, so no node is newly running.
      have hticked : tree.toNode.Tracked (fun node => node.gate = none) alone.agent := by
        rw [halone]
        exact h.tracked.of_inner (inner_alone hrules hdistinct hmem hleaf _ elapsed agent)
          fun low _ hlow => running_alone hrules hleaf hbefore _ elapsed hlow
      exact ⟨hbacked, hticked.of_context rfl⟩
  | @ended other action alone root final hpaused hbehavior hpressing halone hended hroot hfinal =>
      obtain rfl := List.mem_singleton.1 (h.behavior other hbehavior)
      obtain ⟨hmem, hleaf, hbefore⟩ := h.pressing hdecided hpressing
      -- While its result waits the action itself is no longer running, but all above it is.
      have hhanded : other.toNode.Tracked (fun node => node.gate = none)
          (alone.agent.withWaiting action.id alone.value) := by
        rw [halone]
        refine h.tracked.of_inner
          (inner_handed hrules hdistinct hmem hleaf _ elapsed agent _) fun low _ hlow => ?_
        rw [status_of_with_waiting] at hlow
        exact running_alone hrules hleaf hbefore _ elapsed hlow
      have hpassed := hhanded.execute hrules hdistinct (other.inUse kept) elapsed
      rw [← hroot] at hpassed
      refine ⟨hbacked, ?_⟩
      rw [hfinal]
      refine Node.Tracked.of_inner (hpassed.of_context rfl)
        (Drift.inner_of_leaf hdistinct hmem hleaf fun id hne => ?_) fun low _ hlow => ?_
      · exact spares_forget _ _ (.inr (.inr fun heq => hne (NodeId.raw_inj.1 heq).symm))
      · rwa [status_of_forget_of_slot_ne _ _ (by simp)] at hlow

end Agent

namespace Command

variable {tree : Tree G}

/-- Every command keeps track. -/
theorem play_pathed (hrules : rules.Modest) (hdecided : rules.Decided)
    (hdistinct : tree.toNode.Distinct) {command : Command G} (hcommand : command.Within [tree]) :
    (command.play rules).Keeps (.invariant (Agent.Pathed rules tree)) := by
  intro agent history h
  have hbacked := play_backed hrules hdecided (Tree.distinct_forest hdistinct).unambiguous hcommand
    agent history h.toBacked
  cases command with
  | update kept elapsed =>
      rw [play, Play.map_apply]
      exact Agent.update_pathed hrules hdecided hdistinct kept elapsed agent history h
  | setBehavior kept other =>
      rw [play, Play.map_apply] at hbacked ⊢
      refine ⟨hbacked, ?_⟩
      rw [(Agent.set_behavior_apply kept other agent).1]
      exact h.tracked.of_context rfl
  | takeBehavior | setSelection | setPaused => exact ⟨hbacked, h.tracked.of_context rfl⟩

end Command

/-- An agent that is reached on a single tree keeps track. -/
theorem Agent.Reached.pathed {tree : Tree G} {history : List Note} {agent : Agent G}
    (hagent : agent.Reached rules [tree] history) (hrules : rules.Modest)
    (hdecided : rules.Decided) (hdistinct : tree.toNode.Distinct) :
    agent.Pathed rules tree history := by
  obtain ⟨entity, commands, hcommands, rfl, rfl⟩ := hagent
  have hfresh : (Agent.fresh entity).Pathed rules tree [] := by
    have hbacked : Agent.Reached rules [tree] [] (Agent.fresh (G := G) entity) :=
      ⟨entity, [], by simp, rfl, rfl⟩
    exact ⟨hbacked.backed hrules hdecided (Tree.distinct_forest hdistinct).unambiguous,
      Agent.fresh_tracked _ _ entity⟩
  exact Command.play_all_keeps (fun command h => Command.play_pathed hrules hdecided hdistinct
    (hcommands command h)) (Agent.fresh entity) [] hfresh

/-- Resumption is complete in a tree in which only leaves have gates and nothing is a limit, for
an agent that has run this tree only. A node with a running node at or below one of its children
is running and stands at that child. So a pass executes every node that was running; a
must-complete action that ended on its own gets its turn in the pass that follows, with its final
result; and an update that does not come out running leaves nothing running. -/
theorem resumption_complete (hrules : rules.Modest) (hdecided : rules.Decided) {tree : Tree G}
    (hdistinct : tree.toNode.Distinct) (hunbarred : ∀ node ∈ tree.toNode.preorder, node.Unbarred)
    {history : List Note} {agent : Agent G} (hagent : agent.Reached rules [tree] history) :
    (∀ node ∈ tree.toNode.preorder, ∀ index child, node.children[index]? = some child →
      ∀ low ∈ child.preorder, agent.statusOf low.id = .running → node.StandsAt index agent) ∧
    ∀ (kept : NodeId → Bool) (elapsed : Nat),
      (∀ start, agent.passStart? rules kept elapsed = some start →
        ∀ node ∈ tree.toNode.preorder, agent.statusOf node.id = .running →
          ∃ visit ∈ tree.toNode.visits rules (agent.alive kept) elapsed start,
            visit.node = node) ∧
      (∀ action, agent.paused = false → agent.behavior = some tree →
        agent.pressingAction? kept = some action →
          let alone := action.execute rules (agent.alive kept) elapsed agent.nextTick
          alone.value ≠ .running → ∃ start, agent.passStart? rules kept elapsed = some start ∧
            ∃ parent ∈ tree.toNode.visits rules (agent.alive kept) elapsed start,
              ∃ turn ∈ parent.node.turns rules (agent.alive kept) elapsed parent.agent,
                turn.node = action ∧
                  turn.result rules (agent.alive kept) elapsed = alone.value) ∧
      let outcome := Agent.update rules kept elapsed agent
      outcome.value ≠ .running →
        ∀ node ∈ tree.toNode.preorder, outcome.agent.statusOf node.id ≠ .running := by
  have hpathed := hagent.pathed hrules hdecided hdistinct
  have hbelow : ∀ {top : Node G}, top ∈ tree.toNode.preorder →
      ∀ other ∈ top.preorder, other.Unbarred := fun htop other hother =>
    hunbarred other (Node.preorder_trans htop hother)
  refine ⟨?_, fun kept elapsed => ⟨?_, ?_, ?_⟩⟩
  · intro node hnode index child hchild low hlow hrunning
    exact (hpathed.tracked.of_mem hnode).stands_at (hbelow hnode) hchild hlow hrunning
  · intro start hstart node hnode hrunning
    have hleads := (hpathed.tracked.leads hunbarred hnode hrunning).2
    obtain ⟨visit, hvisit, hsame, -⟩ := hleads.visited hrules (agent.alive kept) elapsed
      hdistinct hunbarred (hpathed.inner_pass_start hrules hdecided hdistinct hstart)
    exact ⟨visit, hvisit, hsame⟩
  · intro action hpaused hbehavior hpressing alone hended
    obtain ⟨hmem, hleaf, hrunning⟩ := hpathed.pressing hdecided hpressing
    have hstart : agent.passStart? rules kept elapsed =
        some (alone.agent.withWaiting action.id alone.value) := by
      have hstopped : alone.value.isRunning = false :=
        Bool.eq_false_iff.2 (mt Status.is_running_iff.1 hended)
      simp [Agent.passStart?, hpaused, hbehavior, hpressing, alone, hstopped]
    refine ⟨_, hstart, ?_⟩
    have hleads := (hpathed.tracked.leads hunbarred hmem hrunning).2
    obtain ⟨visit, hvisit, rfl, hkept⟩ := hleads.visited hrules (agent.alive kept) elapsed
      hdistinct hunbarred (hpathed.inner_pass_start hrules hdecided hdistinct hstart)
    rcases Node.visits_parent hvisit with hroot | ⟨parent, hparent, hturn⟩
    · rw [hroot] at hleaf
      cases hleaf
    refine ⟨parent, hparent, visit, hturn, rfl, ?_⟩
    -- The result still waits when the action gets its turn, so the action claims it.
    have hwaiting : visit.agent.waiting? visit.node.id = some alone.value := by
      rw [Agent.Spares.waiting?_eq (hkept _ visit.node.id_mem_ids)
        (by simp [Region.elsewhere, Slot.IsGame]), Agent.waiting?_with_waiting_self]
    rw [Visit.result, Node.execute_leaf hleaf, hwaiting]
    rfl
  · intro outcome hvalue node hnode hrunning
    have hafter := Agent.update_pathed hrules hdecided hdistinct kept elapsed agent history hpathed
    have hroot := (hafter.tracked.leads hunbarred hnode hrunning).1
    refine hvalue ?_
    calc outcome.value
        _ = outcome.agent.status := Agent.value_update rules kept elapsed agent
        _ = outcome.agent.statusOf tree.id := hafter.reported
        _ = .running := hroot

/-- The errand on its last leg: the sequence stands at the timed leaf, and the tick on which the
countdown expires hands the result over and leaves nothing running. -/
theorem resumption_complete_errand :
    let rules := Rules.clocked deadline
    let kept := fun _ : NodeId => false
    let agent := (clockedRun deadline errandTree [1, 2]).agent
    (∃ node ∈ errandTree.toNode.preorder, node.Walks ∧ node.StandsAt 1 agent) ∧
      (∃ start, agent.passStart? rules kept 5 = some start ∧
        (∀ node ∈ errandTree.toNode.preorder, agent.statusOf node.id = .running →
          ∃ visit ∈ errandTree.toNode.visits rules (agent.alive kept) 5 start,
            visit.node = node) ∧
        ∃ parent ∈ errandTree.toNode.visits rules (agent.alive kept) 5 start,
          ∃ turn ∈ parent.node.turns rules (agent.alive kept) 5 parent.agent,
            turn.result rules (agent.alive kept) 5 = .finished) ∧
      ∀ node ∈ errandTree.toNode.preorder,
        (Agent.update rules kept 5 agent).agent.statusOf node.id ≠ .running := by
  intro rules kept agent
  have hunbarred : ∀ node ∈ errandTree.toNode.preorder, node.Unbarred := by
    simp [errandTree, Tree.toNode, Node.preorder, Node.preorderChild, Node.preorderAll,
      Node.Unbarred]
  obtain ⟨hstands, hupdate⟩ := resumption_complete (Rules.clocked_modest deadline)
    deadline_decided errand_tree_distinct hunbarred (clocked_run_reached deadline errandTree [1, 2])
  obtain ⟨hvisited, hreached, hidle⟩ := hupdate kept 5
  let last : Node (Game.clocked Unit) := .timed ⟨⟨1⟩, none⟩ 3 true
  have hpressing : agent.pressingAction? kept = some last := by rfl
  obtain ⟨start, hstart, parent, hparent, turn, hturn, -, hresult⟩ :=
    hreached last rfl rfl hpressing (by decide +kernel)
  refine ⟨⟨_, List.mem_of_getElem? (i := 1) rfl, by simp [Node.Walks, CompositeKind.advance?],
    hstands _ (List.mem_of_getElem? (i := 1) rfl) 1 last rfl last last.self_mem_preorder
      (by decide +kernel)⟩, ⟨start, hstart, hvisited start hstart, parent, hparent, turn, hturn,
        hresult.trans (by decide +kernel)⟩, hidle (by decide +kernel)⟩

end BehaviorTree
