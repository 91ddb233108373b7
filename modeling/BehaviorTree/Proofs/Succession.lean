import BehaviorTree.Proofs.Pathway
import BehaviorTree.Proofs.Postorder
import Mathlib.Data.List.Flatten

/-!
# The succession of current actions

An action that is executed becomes the current one if it comes out running, unless a live
must-complete action is there already, and stops being it if it comes out in any other way
(`succeed`). So the current action after an execution is a fold of these steps over the actions
that the execution comes to (`Node.execute_succeeds`), and where no action is executed twice the
fold has a closed form (`foldl_succeed`): the first must-complete action that came out running,
or else the last that did, or else what was there before and was not executed.
-/

namespace BehaviorTree

variable {G : Game} {rules : Rules G} {kept : NodeId → Bool} {elapsed : Nat}

/-! ## Actions that are executed -/

/-- An action that was executed, and what it came out with. -/
abbrev Deed (G : Game) := Node G × Status

namespace Node

/-- The actions that an execution executes, in order. -/
def deeds (rules : Rules G) (kept : NodeId → Bool) (elapsed : Nat) (node : Node G)
    (agent : Agent G) : List (Deed G) :=
  ((node.visits rules kept elapsed agent).filter fun visit => visit.node.family = .action).map
    fun visit => (visit.node, visit.result rules kept elapsed)

/-- A leaf executes itself and nothing else. -/
theorem deeds_leaf {node : Node G} (hleaf : node.family = .action) (agent : Agent G) :
    node.deeds rules kept elapsed agent =
      [(node, (node.execute rules kept elapsed agent).value)] := by
  rw [deeds, visits_leaf hleaf, List.filter_singleton]
  simp [hleaf, Visit.result]

/-- A node above others executes the actions of its turns, one turn after the other. -/
theorem deeds_inner {node : Node G} (hinner : node.family ≠ .action) (agent : Agent G) :
    node.deeds rules kept elapsed agent =
      (node.turns rules kept elapsed agent).flatMap fun turn =>
        turn.node.deeds rules kept elapsed turn.agent := by
  rw [deeds, visits_eq, List.filter_cons_of_neg (by simpa using hinner), List.filter_flatMap,
    List.map_flatMap]
  rfl

/-- An execution comes to nodes in the order of the tree, and to none more often than it stands
there. -/
theorem visits_sublist (rules : Rules G) (kept : NodeId → Bool) (elapsed : Nat) (node : Node G)
    (agent : Agent G) :
    ((node.visits rules kept elapsed agent).map Visit.node).Sublist node.preorder := by
  induction node, agent using by_turns rules kept elapsed with
  | step node agent ih =>
      rw [visits_eq, preorder_eq, List.map_cons, List.map_flatMap]
      refine List.Sublist.cons_cons node (.trans (List.Sublist.flatMap_right _ ih) ?_)
      have hturns : ((node.turns rules kept elapsed agent).map Visit.node).Sublist node.children :=
        (node.turns_executes agent).sublist
      simpa [List.flatMap_map] using hturns.flatMap preorder

/-- Where identities are distinct no action is executed twice. -/
theorem Distinct.deeds_nodup {node : Node G} (h : node.Distinct) (agent : Agent G) :
    ((node.deeds rules kept elapsed agent).map fun deed => deed.1.id).Nodup := by
  have hvisits := (visits_sublist rules kept elapsed node agent).map Node.id
  refine List.Nodup.sublist (.trans ?_ hvisits) h
  rw [deeds, List.map_map, List.map_map]
  exact List.filter_sublist.map _

end Node

/-! ## One step -/

/-- The current action after an action was executed. -/
def succeed (current : Option (Node G)) (deed : Deed G) : Option (Node G) :=
  if deed.2 = .running then
    if current.any fun held => held.id ≠ deed.1.id ∧ held.mustComplete then current
    else some deed.1
  else current.filter fun held => held.id ≠ deed.1.id

/-- The current action after a deed is the one before it or that of the deed. -/
theorem succeed_eq_some {current : Option (Node G)} {deed : Deed G} {held : Node G}
    (h : succeed current deed = some held) : current = some held ∨ held = deed.1 := by
  rw [succeed] at h
  split at h
  · split at h
    · exact .inl h
    · exact .inr (Option.some.inj h).symm
  · exact .inl (Option.filter_eq_some_iff.1 h).1

namespace Agent

variable {agent after : Agent G}

/-- The current action depends on what is held and on the tree that the agent had all along. -/
theorem current_action?_of_behavior (h : after.behavior = agent.behavior) (kept : NodeId → Bool) :
    after.currentAction? kept =
      after.heldAction?.filter fun held => agent.alive kept held.id := by
  rw [currentAction?]
  congr 1
  funext held
  exact alive_congr h kept held.id

/-- Agents that hold the same action and run the same tree have the same current action. -/
theorem current_action?_congr (hheld : after.heldAction? = agent.heldAction?)
    (hbehavior : after.behavior = agent.behavior) (kept : NodeId → Bool) :
    after.currentAction? kept = agent.currentAction? kept := by
  rw [current_action?_of_behavior hbehavior, hheld]
  rfl

/-- To release an action takes it, and no other, from the place of the current one. -/
theorem current_action?_release (agent : Agent G) (kept : NodeId → Bool) (id : NodeId) :
    (agent.release id).currentAction? kept =
      (agent.currentAction? kept).filter fun held => held.id ≠ id := by
  rw [current_action?_of_behavior (agent.stands_release id).behavior, held_action?_release,
    currentAction?, Option.filter_filter, Option.filter_filter]
  simp only [Bool.and_comm]

/-- A live action that comes out running succeeds the current one. -/
theorem current_action?_hold {action : Node G} (halive : agent.alive kept action.id) :
    (agent.hold kept action).currentAction? kept =
      succeed (agent.currentAction? kept) (action, .running) := by
  rw [succeed, if_pos rfl]
  split
  case isTrue hpinned =>
    obtain ⟨held, hheld, hbefore⟩ := (Option.any_eq_true _ _).1 hpinned
    obtain ⟨hne, hmust⟩ : held.id ≠ action.id ∧ held.mustComplete := by simpa using hbefore
    obtain ⟨hstored, hlive⟩ := current_action?_eq_some.1 hheld
    rw [Pinned.hold_eq ⟨hstored, hne, hmust, hlive⟩]
  case isFalse hfree =>
    rcases agent.held_action?_hold kept action with hself | ⟨held, hpin, -⟩
    · rw [current_action?_of_behavior (agent.stands_hold kept action).behavior, hself]
      simp [halive]
    · have hheld : agent.currentAction? kept = some held :=
        current_action?_eq_some.2 ⟨hpin.1, hpin.2.2.2⟩
      simp [hheld, hpin.2.1, hpin.2.2.1] at hfree

/-- What a decided answer of a live action does to the current one. -/
theorem current_action?_follow {action : Node G} (halive : agent.alive kept action.id)
    {status : Status} (hdecided : status.IsDecided) :
    (agent.follow kept action status).currentAction? kept =
      succeed (agent.currentAction? kept) (action, status) := by
  rcases hdecided with rfl | rfl | rfl
  · exact current_action?_hold halive
  · exact agent.current_action?_release kept action.id
  · exact agent.current_action?_release kept action.id

/-- The results that wait are those of actions that came to an end, and none of them is the
current action. -/
structure Handed (kept : NodeId → Bool) (agent : Agent G) : Prop where
  ended : ∀ id, agent.waiting? id ≠ some .running
  apart : ∀ held, agent.currentAction? kept = some held → agent.waiting? held.id = none

/-- Where nothing waits, nothing waits that should not. -/
theorem NoneWaiting.handed (h : agent.NoneWaiting) (kept : NodeId → Bool) :
    agent.Handed kept where
  ended id := by simp [h id]
  apart held _ := h held.id

/-- Some actions were executed, and the current action has changed hands accordingly. -/
structure Succeeds (kept : NodeId → Bool) (before : Agent G) (deeds : List (Deed G))
    (after : Agent G) : Prop where
  behavior : after.behavior = before.behavior
  handed : before.Handed kept → after.Handed kept
  current : before.Handed kept →
    after.currentAction? kept = deeds.foldl succeed (before.currentAction? kept)

/-- Deeds that follow upon others succeed them. -/
theorem Succeeds.trans {before middle after : Agent G} {early late : List (Deed G)}
    (hearly : before.Succeeds kept early middle) (hlate : middle.Succeeds kept late after) :
    before.Succeeds kept (early ++ late) after where
  behavior := hlate.behavior.trans hearly.behavior
  handed h := hlate.handed (hearly.handed h)
  current h := by rw [hlate.current (hearly.handed h), hearly.current h, List.foldl_append]

/-- Where neither the action that is held nor what waits has changed, no action was executed. -/
theorem Succeeds.of_same {before after : Agent G} (hbehavior : after.behavior = before.behavior)
    (hheld : after.heldAction? = before.heldAction?)
    (hwaiting : ∀ id, after.waiting? id = before.waiting? id) :
    before.Succeeds kept [] after where
  behavior := hbehavior
  handed h :=
    { ended := fun id => hwaiting id ▸ h.ended id
      apart := fun held hcurrent => by
        rw [hwaiting]
        exact h.apart held (current_action?_congr hheld hbehavior kept ▸ hcurrent) }
  current _ := current_action?_congr hheld hbehavior kept

/-- To settle a result changes nothing about the current action and what waits. -/
theorem Succeeds.settle (agent : Agent G) (id : NodeId) (status : Status) :
    agent.Succeeds kept [] (agent.settle id status) :=
  .of_same rfl (agent.held_action?_settle id status) fun other =>
    agent.waiting?_settle id other status

/-- An action for which nothing waits was executed. -/
theorem Succeeds.of_current {deed : Deed G} (hwaiting : agent.waiting? deed.1.id = none)
    (hbehavior : after.behavior = agent.behavior)
    (hsame : ∀ id, after.waiting? id = agent.waiting? id)
    (hcurrent : after.currentAction? kept = succeed (agent.currentAction? kept) deed) :
    agent.Succeeds kept [deed] after where
  behavior := hbehavior
  handed h :=
    { ended := fun id => hsame id ▸ h.ended id
      apart := fun held hheld => by
        rw [hsame]
        rcases succeed_eq_some (hcurrent ▸ hheld) with hbefore | rfl
        · exact h.apart held hbefore
        · exact hwaiting }
  current _ := hcurrent

end Agent

/-! ## One execution -/

/-- Doings that leave the current action and what waits alone. -/
def Passage.uncontested (kept : NodeId → Bool) : Passage G where
  allows before _ after := before.Succeeds kept [] after
  stay _ := .of_same rfl rfl fun _ => rfl
  join := .trans

/-- What the engine does at a node above others leaves the current action and what waits alone. -/
theorem Passage.uncontested_tends (kept : NodeId → Bool) (id : NodeId) :
    (Passage.uncontested (G := G) kept).Tends id :=
  Passage.tends_of_asks fun hstands hspares _ =>
    .of_same hstands.behavior
      (hspares.held_action?_eq hstands.entity (by simp [Region.progress, Slot.IsGame]))
      fun id => hspares.waiting?_eq (by simp [Region.progress, Slot.IsGame])

namespace Node

/-- What goes before the logic of a node leaves the current action and what waits alone. -/
theorem Nears.succeeds {node : Node G} {agent near : Agent G} {notes : List Note}
    (h : node.Nears agent notes near) : agent.Succeeds kept [] near :=
  .of_same h.touches.stands.behavior h.touches.held_action?_eq h.touches.waiting?_eq

/-- A claimed result leaves the current action alone: it is not the action that claims. -/
theorem succeeds_claimed {node : Node G} {agent : Agent G} {status : Status}
    (hwaiting : agent.waiting? node.id = some status) :
    agent.Succeeds kept [(node, status)] (agent.forget .completed node.id.raw) := by
  have hcurrent : (agent.forget .completed node.id.raw).currentAction? kept =
      agent.currentAction? kept :=
    Agent.current_action?_congr (agent.held_action?_forget_completed node.id) rfl kept
  have hother : agent.Handed kept → ∀ {held}, agent.currentAction? kept = some held →
      held.id ≠ node.id := by
    intro h held hheld heq
    have hnone := h.apart held hheld
    rw [heq, hwaiting] at hnone
    cases hnone
  refine ⟨rfl, fun h => ⟨fun id => ?_, fun held hheld => ?_⟩, fun h => ?_⟩
  · by_cases hid : id = node.id
    · simp [hid]
    · rw [Agent.waiting?_forget_of_ne _ hid]
      exact h.ended id
  · rw [hcurrent] at hheld
    rw [Agent.waiting?_forget_of_ne _ (hother h hheld), h.apart held hheld]
  · have hended : status ≠ .running := by
      rintro rfl
      exact h.ended node.id hwaiting
    rw [hcurrent, List.foldl_cons, List.foldl_nil, succeed, if_neg hended]
    cases hheld : agent.currentAction? kept with
    | none => rfl
    | some held => simp [Option.filter, hother h hheld]

/-- The execution of a live action is one step. -/
theorem LeafRun.succeeds {node : Node G} {agent : Agent G} {outcome : Outcome G Status}
    (h : node.LeafRun rules kept agent outcome) (hdecided : rules.Decided)
    (halive : agent.alive kept node.id) :
    agent.Succeeds kept [(node, outcome.value)] outcome.agent := by
  cases h with
  | claimed hwaiting => exact (succeeds_claimed hwaiting).trans (.settle _ _ _)
  | @blocked near notes hwaiting hnear =>
      have hrelease : near.Succeeds kept [(node, .canNotExecute)] (near.release node.id) :=
        .of_current ((hnear.touches.waiting?_eq node.id).trans hwaiting)
          (near.stands_release node.id).behavior (near.waiting?_release node.id)
          (near.current_action?_release kept node.id)
      exact (hnear.succeeds.trans hrelease).trans (.settle _ _ _)
  | @ran near notes status hwaiting hnear hstatus =>
      have hlive : near.alive kept node.id := by
        rwa [Agent.alive_congr hnear.touches.stands.behavior]
      have hfollow : near.Succeeds kept [(node, status)] (near.follow kept node status) :=
        .of_current ((hnear.touches.waiting?_eq node.id).trans hwaiting)
          (near.stands_follow kept node status).behavior (near.waiting?_follow kept node status)
          (Agent.current_action?_follow hlive (hstatus hdecided))
      exact (hnear.succeeds.trans hfollow).trans (.settle _ _ _)

end Node

/-- Threaded turns succeed each other as each of them does. -/
theorem Threads.succeeds {turns : List (Visit G)} {before after : Agent G} {notes : List Note}
    (h : Threads rules kept elapsed turns before notes after)
    (halive : ∀ turn ∈ turns, ∀ id ∈ turn.node.ids, before.alive kept id)
    (hturns : ∀ turn ∈ turns, (∀ id ∈ turn.node.ids, turn.agent.alive kept id) →
      turn.agent.Succeeds kept (turn.node.deeds rules kept elapsed turn.agent)
        (turn.node.execute rules kept elapsed turn.agent).agent) :
    before.Succeeds kept
      (turns.flatMap fun turn => turn.node.deeds rules kept elapsed turn.agent) after := by
  induction turns generalizing before notes with
  | nil =>
      obtain ⟨rfl, rfl⟩ := h
      exact (Passage.uncontested kept).stay _
  | cons turn rest ih =>
      obtain ⟨rfl, late, rfl, hrest⟩ := h
      have hfirst := hturns turn List.mem_cons_self (halive turn List.mem_cons_self)
      refine hfirst.trans (ih hrest (fun other hother id hid => ?_) fun other hother =>
        hturns other (List.mem_cons_of_mem turn hother))
      rw [Agent.alive_congr hfirst.behavior]
      exact halive other (List.mem_cons_of_mem turn hother) id hid

namespace Node

/-- An execution in a live subtree changes the current action as the actions do that it comes
to. -/
theorem execute_succeeds (hrules : rules.Modest) (hdecided : rules.Decided)
    (kept : NodeId → Bool) (elapsed : Nat) (node : Node G) (agent : Agent G)
    (halive : ∀ id ∈ node.ids, agent.alive kept id) :
    agent.Succeeds kept (node.deeds rules kept elapsed agent)
      (node.execute rules kept elapsed agent).agent := by
  induction node using by_family generalizing agent with
  | inner node hinner ih =>
      have htends := Passage.uncontested_tends (G := G) kept node.id
      obtain ⟨notes, reached, late, last, status, heq, hearly, hthreads, hlate⟩ :=
        execute_threads kept elapsed hinner htends (node.open_keeps hrules htends.toGates) agent
      have hnear : agent.Succeeds kept [] (node.approach rules agent).agent := hearly
      have hlast : reached.Succeeds kept [] last := hlate
      have hmiddle := hthreads.succeeds
        (fun turn hturn id hid => by
          rw [Agent.alive_congr hnear.behavior]
          exact halive id (ids_subset (child_mem_preorder (turns_mem hturn)) hid))
        fun turn hturn => ih turn.node (turns_mem hturn) turn.agent
      rw [heq, deeds_inner hinner]
      simpa using ((hnear.trans hmiddle).trans hlast).trans (.settle last node.id status)
  | leaf node hleaf =>
      rw [deeds_leaf hleaf]
      exact (execute_leaf_run hrules kept elapsed hleaf agent).succeeds hdecided
        (halive node.id node.id_mem_ids)

end Node

/-! ## Many steps -/

/-- The actions that came out running. -/
def runners (deeds : List (Deed G)) : List (Node G) :=
  (deeds.filter fun deed => deed.2 = .running).map Prod.fst

/-- Those that came out running in a succession of deeds did so in its parts. -/
theorem runners_append (early late : List (Deed G)) :
    runners (early ++ late) = runners early ++ runners late := by
  rw [runners, List.filter_append, List.map_append]
  rfl

/-- An action that came out running was executed. -/
theorem mem_of_mem_runners {deeds : List (Deed G)} {action : Node G}
    (h : action ∈ runners deeds) : action.id ∈ deeds.map fun deed => deed.1.id := by
  obtain ⟨deed, hdeed, rfl⟩ := List.mem_map.1 h
  exact List.mem_map_of_mem (List.mem_filter.1 hdeed).1

/-- The action that takes over from the current one: of those that came out running the first that
must complete, or else the last. -/
def heir? (deeds : List (Deed G)) : Option (Node G) :=
  ((runners deeds).find? Node.mustComplete).or (runners deeds).getLast?

/-- The action that takes over came out running. -/
theorem mem_runners_of_heir? {deeds : List (Deed G)} {action : Node G}
    (h : heir? deeds = some action) : action ∈ runners deeds := by
  rcases Option.or_eq_some_iff.1 h with hfirst | ⟨-, hlast⟩
  · exact List.mem_of_find?_eq_some hfirst
  · exact List.mem_of_getLast? hlast

/-- Another running action takes over, unless a must-complete one has done so. -/
theorem heir?_append_running {deeds : List (Deed G)} {action : Node G} :
    heir? (deeds ++ [(action, .running)]) =
      some (((runners deeds).find? Node.mustComplete).getD action) := by
  have hlast : runners [(action, .running)] = [action] := rfl
  rw [heir?, runners_append, hlast, List.find?_append, List.getLast?_concat]
  cases (runners deeds).find? Node.mustComplete with
  | some first => rfl
  | none => cases hmust : action.mustComplete <;> simp [hmust]

/-- A deed that did not come out running does not change what takes over. -/
theorem heir?_append_ended {deeds : List (Deed G)} {deed : Deed G} (h : deed.2 ≠ .running) :
    heir? (deeds ++ [deed]) = heir? deeds := by
  have hlast : runners [deed] = [] := by simp [runners, h]
  rw [heir?, runners_append, hlast, List.append_nil]
  rfl

/-- The steps of different actions, from a current action that need not complete: one of the
actions takes over, or the current one stays unless it was executed. -/
theorem foldl_succeed {deeds : List (Deed G)} {current : Option (Node G)}
    (hnodup : (deeds.map fun deed => deed.1.id).Nodup)
    (hfree : ∀ held, current = some held → ¬ held.mustComplete) :
    deeds.foldl succeed current =
      (heir? deeds).or
        (current.filter fun held => held.id ∉ deeds.map fun deed => deed.1.id) := by
  induction deeds using List.reverseRecOn with
  | nil => cases current <;> simp [heir?, runners, Option.filter]
  | append_singleton deeds deed ih =>
      obtain ⟨action, status⟩ := deed
      rw [List.map_append, List.map_singleton, List.nodup_append] at hnodup
      obtain ⟨hearly, -, hapart⟩ := hnodup
      have hother : ∀ {other : Node G}, other ∈ runners deeds → other.id ≠ action.id :=
        fun hmem => hapart _ (mem_of_mem_runners hmem) _ (List.mem_singleton_self _)
      rw [List.foldl_append, List.foldl_cons, List.foldl_nil, ih hearly, succeed]
      by_cases hrunning : status = .running
      · subst hrunning
        rw [if_pos rfl, heir?_append_running, Option.some_or]
        cases hfirst : (runners deeds).find? Node.mustComplete with
        | some first =>
            -- A must-complete action has taken over and stays.
            have hne := hother (List.mem_of_find?_eq_some hfirst)
            have hmust := List.find?_some hfirst
            simp [heir?, hfirst, hne, hmust]
        | none =>
            rw [if_neg]
            · rfl
            rw [heir?, hfirst, Option.none_or]
            simp only [Option.any_eq_true, decide_eq_true_eq, not_exists, not_and]
            rintro held hheld - hmust
            rcases Option.or_eq_some_iff.1 hheld with hlast | ⟨-, hbefore⟩
            · exact List.find?_eq_none.1 hfirst held (List.mem_of_getLast? hlast) hmust
            · exact hfree held (Option.filter_eq_some_iff.1 hbefore).1 hmust
      · rw [if_neg hrunning, heir?_append_ended hrunning]
        cases hheir : heir? deeds with
        | some heir =>
            have hne := hother (mem_runners_of_heir? hheir)
            simp [Option.filter, hne]
        | none =>
            rw [Option.none_or, Option.none_or, Option.filter_filter]
            congr 1
            funext held
            rw [Bool.eq_iff_iff]
            simp [not_or]

/-! ## Agents that are reached -/

namespace Agent

variable {agent after : Agent G}

/-- Between two updates what is held is an action, and nothing waits. -/
structure Orderly (agent : Agent G) : Prop where
  held : ∀ action, agent.heldAction? = some action → action.family = .action
  noneWaiting : agent.NoneWaiting

/-- What the context and the entity tell of an agent stays as long as they do. -/
theorem Orderly.of_context (h : agent.Orderly) (hcontext : after.context = agent.context)
    (hentity : after.entity = agent.entity) : after.Orderly where
  held action haction := by
    rw [heldAction?, hcontext, hentity] at haction
    exact h.held action haction
  noneWaiting id := by
    rw [waiting?, hcontext]
    exact h.noneWaiting id

end Agent

/-- Doings after which what is held is an action if it was before. -/
def Passage.holdingActions : Passage G where
  allows before _ after := (∀ held, before.heldAction? = some held → held.family = .action) →
    ∀ held, after.heldAction? = some held → held.family = .action
  stay _ := id
  join hearly hlate h := hlate (hearly h)

/-- What the engine does at a node above others has an agent hold nothing but an action. -/
theorem Passage.holding_actions_serves (id : NodeId) :
    (Passage.holdingActions (G := G)).Serves id where
  toTends := Passage.tends_of_asks fun hstands hspares _ h held hheld => by
    rw [hspares.held_action?_eq hstands.entity (by simp [Region.progress, Slot.IsGame])] at hheld
    exact h held hheld
  conclude agent status h held hheld := h held (agent.held_action?_settle id status ▸ hheld)

/-- A leaf leaves nothing held but an action. -/
theorem Node.LeafRun.holding_actions {node : Node G} {agent : Agent G} {outcome : Outcome G Status}
    (hleaf : node.family = .action) (h : node.LeafRun rules kept agent outcome) :
    Passage.holdingActions.allows agent outcome.notes outcome.agent := by
  intro hbefore held hheld
  cases h with
  | claimed hwaiting =>
      rw [Agent.held_action?_settle, Agent.held_action?_forget_completed] at hheld
      exact hbefore held hheld
  | blocked hwaiting hnear =>
      rw [Agent.held_action?_settle, Agent.held_action?_release,
        hnear.touches.held_action?_eq] at hheld
      exact hbefore held (Option.filter_eq_some_iff.1 hheld).1
  | ran hwaiting hnear hdecided =>
      rw [Agent.held_action?_settle] at hheld
      rcases Agent.held_action?_follow hheld with ⟨rfl, -⟩ | ⟨hold, -⟩
      · exact hleaf
      · exact hbefore held (hnear.touches.held_action?_eq ▸ hold)

/-- An execution leaves nothing held but an action. -/
theorem Node.execute_holding_actions (hrules : rules.Modest) (kept : NodeId → Bool)
    (elapsed : Nat) (node : Node G) : (node.execute rules kept elapsed).Keeps .holdingActions := by
  induction node using by_family with
  | inner node hinner ih =>
      exact execute_keeps hrules hinner (Passage.holding_actions_serves node.id) ih
  | leaf node hleaf =>
      exact fun agent => (execute_leaf_run hrules kept elapsed hleaf agent).holding_actions hleaf

namespace Agent

variable {agent : Agent G}

/-- After an execution what is held is an action and nothing waits, if it was so before. -/
theorem Orderly.execute (h : agent.Orderly) (hrules : rules.Modest) (kept : NodeId → Bool)
    (elapsed : Nat) (node : Node G) : (node.execute rules kept elapsed agent).agent.Orderly where
  held := node.execute_holding_actions hrules kept elapsed agent h.held
  noneWaiting id := Drift.execute_unwaited hrules kept elapsed node agent id (h.noneWaiting id)

/-- An update leaves an agent orderly, whichever course it takes. -/
theorem Orderly.update (h : agent.Orderly) (hrules : rules.Modest) (kept : NodeId → Bool)
    (elapsed : Nat) : (Agent.update rules kept elapsed agent).agent.Orderly := by
  have hnext : agent.nextTick.Orderly := h.of_context rfl rfl
  have hcourse := update_course rules kept elapsed agent
  generalize agent.updateVisits rules kept elapsed = visits at hcourse
  generalize Agent.update rules kept elapsed agent = outcome at hcourse ⊢
  cases hcourse with
  | idle => exact h
  | free hpaused hbehavior hpressing hroot =>
      subst hroot
      exact (hnext.execute hrules _ elapsed _).of_context rfl rfl
  | busy hpaused hbehavior hpressing halone hrunning =>
      subst halone
      exact (hnext.execute hrules _ elapsed _).of_context rfl rfl
  | @ended tree action alone root final hpaused hbehavior hpressing halone hended hroot hfinal =>
      have halone : alone.agent.Orderly := by
        rw [halone]
        exact hnext.execute hrules _ elapsed action
      subst hfinal hroot
      refine ⟨fun held hheld => ?_, fun id => ?_⟩
      · rw [held_action?_forget_completed] at hheld
        refine tree.toNode.execute_holding_actions hrules _ elapsed
          (alone.agent.withWaiting action.id alone.value) (fun other hother => ?_) held hheld
        rw [held_action?_with_waiting] at hother
        exact halone.held other hother
      -- The result of the action is dropped at the end, and nothing else began to wait.
      · by_cases hid : id = action.id
        · rw [hid, waiting?_forget_self]
        · rw [waiting?_forget_of_ne _ hid]
          refine Drift.execute_unwaited hrules _ elapsed tree.toNode
            (alone.agent.withWaiting action.id alone.value) id ?_
          rw [waiting?_with_waiting_of_ne _ _ hid]
          exact halone.noneWaiting id

/-- An agent that was reached holds nothing but an action, and nothing waits. -/
theorem Reached.orderly {forest : List (Tree G)} {history : List Note}
    (hagent : agent.Reached rules forest history) (hrules : rules.Modest) : agent.Orderly := by
  obtain ⟨entity, commands, -, -, rfl⟩ := hagent
  have hfresh : (Agent.fresh (G := G) entity).Orderly :=
    ⟨by simp [Agent.fresh, heldAction?], fun _ => rfl⟩
  generalize Agent.fresh entity = start at hfresh
  induction commands generalizing start with
  | nil => exact hfresh
  | cons command rest ih =>
      refine ih _ ?_
      cases command with
      | update kept elapsed => exact hfresh.update hrules kept elapsed
      | setBehavior kept tree =>
          rw [Command.play, Play.map_apply, (set_behavior_apply kept tree start).1]
          exact hfresh.of_context rfl rfl
      | takeBehavior | setSelection | setPaused => exact hfresh.of_context rfl rfl

/-- To an agent that is in a pass its own tree is in use anyway. -/
theorem current_action?_alive {start : Agent G} (h : start.behavior = agent.behavior)
    (kept : NodeId → Bool) :
    start.currentAction? (agent.alive kept) = start.currentAction? kept := by
  have halive : ∀ id, start.alive (agent.alive kept) id = start.alive kept id := by
    intro id
    simp [alive, owns, h]
  simp only [currentAction?, halive]

variable {tree : Tree G} {start : Agent G}

/-- When a pass of an update starts, nothing waits but the result of an action that was let go. -/
theorem Orderly.pass_start (h : agent.Orderly) (hrules : rules.Modest) (hdecided : rules.Decided)
    (hstart : agent.passStart? rules kept elapsed = some start) :
    start.behavior = agent.behavior ∧ start.Handed (agent.alive kept) := by
  have hnext : agent.nextTick.Orderly := h.of_context rfl rfl
  rw [passStart?] at hstart
  split at hstart
  · cases hstart
  cases hpressing : agent.pressingAction? kept with
  | none =>
      rw [hpressing] at hstart
      obtain rfl := Option.some.inj hstart
      exact ⟨rfl, hnext.noneWaiting.handed _⟩
  | some action =>
      rw [hpressing] at hstart
      dsimp only at hstart
      split at hstart
      · cases hstart
      case isFalse hended =>
        obtain rfl := Option.some.inj hstart
        have hcurrent := (pressing_action?_eq_some.1 hpressing).1
        obtain ⟨hheld, halive⟩ := current_action?_eq_some.1 hcurrent
        have hrun := Node.execute_leaf_run hrules (agent.alive kept) elapsed (h.held action hheld)
          agent.nextTick
        have hlive : agent.nextTick.alive (agent.alive kept) action.id := by
          simp [alive, show kept action.id || agent.owns action.id by exact halive]
        have hstep := hrun.succeeds hdecided hlive
        generalize action.execute rules (agent.alive kept) elapsed agent.nextTick = alone at *
        -- The action that ended has given its place up.
        have hnone : (alone.agent.withWaiting action.id alone.value).currentAction?
            (agent.alive kept) = none := by
          have hbefore : agent.nextTick.currentAction? (agent.alive kept) = some action :=
            (current_action?_alive rfl kept).trans hcurrent
          rw [current_action?_congr
            (alone.agent.held_action?_with_waiting action.id alone.value) rfl,
            hstep.current (hnext.noneWaiting.handed _), hbefore]
          have hne : alone.value ≠ .running := fun heq => hended (Status.is_running_iff.2 heq)
          simp [succeed, hne, Option.filter]
        refine ⟨hstep.behavior, fun id => ?_, fun held hcurrent => ?_⟩
        · by_cases hid : id = action.id
          · rw [hid, waiting?_with_waiting_self]
            exact fun heq => hended (Status.is_running_iff.2 (Option.some.inj heq))
          · rw [waiting?_with_waiting_of_ne _ _ hid]
            exact (hstep.handed (hnext.noneWaiting.handed _)).ended id
        · rw [hnone] at hcurrent
          cases hcurrent

/-- What is current after the pass of an update is so after the update. -/
theorem current_action?_update (hbehavior : agent.behavior = some tree)
    (hstart : agent.passStart? rules kept elapsed = some start) :
    (Agent.update rules kept elapsed agent).agent.currentAction? kept =
      (pass rules (agent.alive kept) elapsed tree start).agent.currentAction? kept := by
  obtain ⟨-, -, htouches⟩ := update_pass_start hbehavior hstart
  exact current_action?_congr (htouches.spares.held_action?_eq htouches.stands.entity (by simp))
    htouches.stands.behavior kept

end Agent

/-! ## One pass -/

/-- Which action is the current one after a pass that starts without a live must-complete one: the
first must-complete action that came out running in the pass; or else the last action that did; or
else the action that was current before, if it was not executed in the pass; or else none. The
update that the pass belongs to leaves the agent with the same one. -/
theorem current_after_pass (hrules : rules.Modest) (hdecided : rules.Decided)
    {forest : List (Tree G)} {history : List Note} {agent : Agent G}
    (hagent : agent.Reached rules forest history) {tree : Tree G}
    (hbehavior : agent.behavior = some tree) (hdistinct : tree.toNode.Distinct)
    (kept : NodeId → Bool) (elapsed : Nat) {start : Agent G}
    (hstart : start = agent ∨ agent.passStart? rules kept elapsed = some start)
    (hfree : start.pressingAction? kept = none) :
    let deeds := tree.toNode.deeds rules (agent.alive kept) elapsed start
    let outcome := Agent.pass rules (agent.alive kept) elapsed tree start
    outcome.agent.currentAction? kept =
        ((runners deeds).find? Node.mustComplete).or ((runners deeds).getLast?.or
          ((start.currentAction? kept).filter fun action =>
            action.id ∉ deeds.map fun deed => deed.1.id)) ∧
      (agent.passStart? rules kept elapsed = some start →
        (Agent.update rules kept elapsed agent).agent.currentAction? kept =
          outcome.agent.currentAction? kept) := by
  intro deeds outcome
  have horderly := hagent.orderly hrules
  obtain ⟨hsame, hhanded⟩ : start.behavior = agent.behavior ∧ start.Handed (agent.alive kept) := by
    rcases hstart with rfl | hstart
    · exact ⟨rfl, horderly.noneWaiting.handed _⟩
    · exact horderly.pass_start hrules hdecided hstart
  -- Every node of the tree is in use during the pass, so no action of it expires on the way.
  have halive : ∀ id ∈ tree.toNode.ids, start.alive (agent.alive kept) id := by
    intro id hid
    obtain ⟨node, hnode, rfl⟩ := Node.mem_ids.1 hid
    have howned : start.owns node.id := by
      rw [Agent.owns, hsame, hbehavior]
      exact List.any_eq_true.2 ⟨node, hnode, by simp⟩
    simp [Agent.alive, howned]
  have hsteps := tree.toNode.execute_succeeds hrules hdecided (agent.alive kept) elapsed start
    halive
  have hunpressed : ∀ held, start.currentAction? kept = some held → ¬ held.mustComplete := by
    intro held hheld hmust
    rw [Agent.pressing_action?_eq_some.2 ⟨hheld, hmust⟩] at hfree
    cases hfree
  -- The fold has a closed form, as no action is executed twice in the pass.
  have hpass : outcome.agent.currentAction? kept =
      deeds.foldl succeed (start.currentAction? kept) :=
    calc outcome.agent.currentAction? kept
        _ = outcome.agent.currentAction? (agent.alive kept) :=
          (Agent.current_action?_alive (hsteps.behavior.trans hsame) kept).symm
        _ = deeds.foldl succeed (start.currentAction? (agent.alive kept)) := hsteps.current hhanded
        _ = deeds.foldl succeed (start.currentAction? kept) := by
          rw [Agent.current_action?_alive hsame]
  refine ⟨?_, Agent.current_action?_update hbehavior⟩
  rw [hpass, foldl_succeed (hdistinct.deeds_nodup start) hunpressed, heir?, Option.or_assoc]

/-- Three leaves side by side: a short one, a must-complete one and a long one. -/
def watchTree : Tree (Game.clocked Unit) where
  head := ⟨⟨4⟩, none⟩
  name := "watch"
  child := some (.composite ⟨⟨3⟩, none⟩ .parallel
    [.timed ⟨⟨0⟩, none⟩ 5 false, .action ⟨⟨1⟩, none⟩ "Deadline" true (),
      .timed ⟨⟨2⟩, none⟩ 9 false])

/-- The must-complete leaf is the current action after the first pass. In the next update it comes
to its end, and the last of the others takes over. -/
theorem current_after_pass_watch :
    let rules := Rules.clocked deadline
    let kept := fun _ : NodeId => false
    let first := (clockedRun deadline watchTree [1]).agent
    (first.currentAction? kept).map Node.id = some ⟨1⟩ ∧
      ((Agent.update rules kept 2 first).agent.currentAction? kept).map Node.id = some ⟨2⟩ := by
  intro rules kept first
  have hdistinct : watchTree.toNode.Distinct := by
    unfold Node.Distinct
    decide
  have hcurrent : (first.currentAction? kept).map Node.id = some ⟨1⟩ := by decide +kernel
  obtain ⟨start, hstart⟩ : ∃ start, first.passStart? rules kept 2 = some start := ⟨_, rfl⟩
  have hfree : start.pressingAction? kept = none := by
    obtain rfl := Option.some.inj hstart
    rfl
  obtain ⟨hpass, hupdate⟩ := current_after_pass (Rules.clocked_modest deadline) deadline_decided
    (clocked_run_reached deadline watchTree [1]) rfl hdistinct kept 2 (.inr hstart) hfree
  refine ⟨hcurrent, ?_⟩
  rw [hupdate hstart, hpass]
  obtain rfl := Option.some.inj hstart
  decide +kernel

end BehaviorTree
