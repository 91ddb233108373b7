import BehaviorTree.Proofs.Run

/-!
# Local games

A game is local if what belongs to a node, be it a leaf, a condition or a filter, reads and writes
nothing but the entries under the node's own identity and the selection, and reads besides them
the tick counter and the entity only (`Rules.Local`).

To the nodes of some trees a local game shows nothing else that an agent remembers. Two agents
that agree on what belongs to these trees (`Agent.Mirrors`) execute the nodes in the same way and
go on agreeing (`Node.execute_mirrored`), whatever one of them has left over from other trees, an
action that it still refers to included.
-/

namespace BehaviorTree

variable {G : Game} {α β : Type}

/-! ## What is local -/

/-- The entries under an identity, except for the current action, which is under an entity. -/
def Region.own (id : NodeId) : Region G := fun slot key => slot ≠ .currentAction ∧ key = id.raw

/-- The current action and the entries under some identities. -/
def Region.inside (ids : List NodeId) : Region G := fun slot key =>
  slot = .currentAction ∨ ∃ id ∈ ids, id.raw = key

/-- What belongs to a node can see no difference between two agents. -/
structure Agent.SameAt (id : NodeId) (one other : Agent G) : Prop where
  entity : other.entity = one.entity
  ticks : other.ticks = one.ticks
  selection : other.selection = one.selection
  entries : ∀ slot : Slot G, slot.IsOpen →
    other.context.get? slot id.raw = one.context.get? slot id.raw

/-- A piece of a game's logic that writes nothing but the selection and the entries under an
identity, and reads nothing but these, the tick counter and the entity. -/
structure Play.LocalTo (id : NodeId) (play : Play G α) : Prop where
  writes : ∀ agent : Agent G,
    agent.Touches (fun slot key => slot.IsOpen ∧ key = id.raw) (play agent).agent
  reads : ∀ {one other : Agent G}, one.SameAt id other →
    (play other).value = (play one).value ∧ (play other).notes = (play one).notes ∧
      (play one).agent.SameAt id (play other).agent

/-- Leaves, conditions and the filters in the gates of some trees are local to their nodes. -/
structure Rules.Local (rules : Rules G) (forest : List (Tree G)) : Prop where
  enter : ∀ leaf id, (rules.enter leaf id).LocalTo id
  act : ∀ leaf id elapsed, (rules.act leaf id elapsed).LocalTo id
  test : ∀ test node, (rules.test test node).LocalTo node.id
  sift : ∀ node ∈ forestNodes forest, ∀ name sieve, .game name sieve ∈ node.filters →
    (rules.sift sieve).LocalTo node.id

/-- To answer without looking at an agent is local to every node. -/
theorem Play.local_to_pure (id : NodeId) (value : α) : (pure value : Play G α).LocalTo id where
  writes agent := .refl agent
  reads h := ⟨rfl, rfl, h⟩

/-- A game whose leaves answer by the clock alone is local, whatever the trees. -/
theorem Rules.clocked_local {Leaf : Type} (answer : Leaf → Nat → Status)
    (forest : List (Tree (Game.clocked Leaf))) : (Rules.clocked answer).Local forest where
  enter _ id := Play.local_to_pure id ()
  act leaf id elapsed := Play.local_to_pure id (answer leaf elapsed)
  test := nofun
  sift _ _ _ := nofun

/-- What is local to more trees is local to fewer. -/
theorem Rules.Local.mono {rules : Rules G} {small large : List (Tree G)} (h : rules.Local large)
    (hle : ∀ tree ∈ small, tree ∈ large) : rules.Local small where
  enter := h.enter
  act := h.act
  test := h.test
  sift node hnode := by
    obtain ⟨tree, htree, hmem⟩ := List.mem_flatMap.1 hnode
    exact h.sift node (mem_forest_nodes (hle tree htree) hmem)

/-! ## Agents that agree on some trees -/

/-- The identities in some trees. -/
def forestIds (forest : List (Tree G)) : List NodeId := (forestNodes forest).map Node.id

/-- A tree in a forest has its identities among those of the forest. -/
theorem mem_forest_ids_of_contains {forest : List (Tree G)} {tree : Tree G} (htree : tree ∈ forest)
    {id : NodeId} (h : tree.contains id = true) : id ∈ forestIds forest := by
  obtain ⟨node, hnode, heq⟩ := List.any_eq_true.1 h
  exact List.mem_map.2 ⟨node, mem_forest_nodes htree hnode, eq_of_beq heq⟩

/-- A forest of one tree has the identities of that tree. -/
theorem forest_ids_singleton (tree : Tree G) : forestIds [tree] = tree.toNode.ids := by
  simp [forestIds, forestNodes, Node.ids]

/-- A node in a forest has its identity among those of the forest. -/
theorem mem_forest_ids {forest : List (Tree G)} {node : Node G} (h : node ∈ forestNodes forest) :
    node.id ∈ forestIds forest := List.mem_map_of_mem h

namespace Agent

/-- An agent has come to be `one` from `start` within a tick by running some trees, and `other`
agrees with it on all that belongs to these trees. What does not has stayed as it was, and an
action that is held from elsewhere is one that was held at the start. -/
structure Mirrors (forest : List (Tree G)) (one start other : Agent G) : Prop where
  entity : other.entity = one.entity
  behavior : other.behavior = one.behavior
  paused : other.paused = one.paused
  clock : one.ticks = start.ticks
  ticks : other.ticks = one.ticks
  selection : other.selection = one.selection
  attached : ∀ tree ∈ one.behavior, tree ∈ forest
  entries : ∀ id ∈ forestIds forest, ∀ slot : Slot G, slot ≠ .currentAction →
    other.context.get? slot id.raw = one.context.get? slot id.raw
  outside : start.Spares (.inside (forestIds forest)) one
  held : other.heldAction? = one.heldAction?.filter fun action => action.id ∈ forestIds forest
  known : ∀ action, other.heldAction? = some action → action ∈ forestNodes forest
  foreign : ∀ action, one.heldAction? = some action → action.id ∉ forestIds forest →
    start.heldAction? = some action

/-- A must-complete action from outside some trees is no longer in use when an agent holds it. -/
def Unpinned (forest : List (Tree G)) (kept : NodeId → Bool) (agent : Agent G) : Prop :=
  ∀ action, agent.heldAction? = some action → action.id ∉ forestIds forest →
    action.mustComplete → kept action.id = false

namespace Mirrors

variable {forest : List (Tree G)} {start one other one' other' : Agent G} {id : NodeId}
  {kept : NodeId → Bool} {node : Node G}

/-- Agents that agree have the same status of a node. -/
theorem status_of_eq (h : one.Mirrors forest start other) (hid : id ∈ forestIds forest) :
    other.statusOf id = one.statusOf id :=
  congrArg (Option.getD · Status.unknown) (h.entries id hid .status (by simp))

/-- Agents that agree have the same position stored for a node. -/
theorem resume_index_of_eq (h : one.Mirrors forest start other) (hid : id ∈ forestIds forest) :
    other.resumeIndexOf id = one.resumeIndexOf id :=
  congrArg (Option.getD · (0 : Nat)) (h.entries id hid .resumeIndex (by simp))

/-- Agents that agree have counted the same for a node. -/
theorem exec_count_of_eq (h : one.Mirrors forest start other) (hid : id ∈ forestIds forest) :
    other.execCountOf id = one.execCountOf id :=
  congrArg (Option.getD · (0 : Nat)) (h.entries id hid .execCount (by simp))

/-- Agents that agree have the same countdown for a node. -/
theorem timer_of_eq (h : one.Mirrors forest start other) (hid : id ∈ forestIds forest) :
    other.timerOf id = one.timerOf id :=
  congrArg (Option.getD · Timer.unarmed) (h.entries id hid .timer (by simp))

/-- Agents that agree have the same result waiting of an action. -/
theorem waiting?_eq (h : one.Mirrors forest start other) (hid : id ∈ forestIds forest) :
    other.waiting? id = one.waiting? id := h.entries id hid .completed (by simp)

/-- An action of the trees that one agent holds the other holds as well. -/
theorem held_of_mem (h : one.Mirrors forest start other) {action : Node G}
    (hheld : one.heldAction? = some action) (hmem : action.id ∈ forestIds forest) :
    other.heldAction? = some action := by
  rw [h.held, hheld]
  simp [hmem]

/-- Of an action from elsewhere the other agent knows nothing. -/
theorem held_of_not_mem (h : one.Mirrors forest start other) {action : Node G}
    (hheld : one.heldAction? = some action) (hmem : action.id ∉ forestIds forest) :
    other.heldAction? = none := by
  rw [h.held, hheld]
  simp [hmem]

/-- If the first of two agents that agree holds no action, the other does not either. -/
theorem held_of_none (h : one.Mirrors forest start other) (hheld : one.heldAction? = none) :
    other.heldAction? = none := by
  rw [h.held, hheld]
  rfl

/-- What touches the entries of one node of the trees, and leaves them the same with both agents,
keeps the agreement. -/
theorem step (h : one.Mirrors forest start other) (hid : id ∈ forestIds forest)
    (hone : one.Stands one') (hother : other.Stands other')
    (hselection : other'.selection = one'.selection) (hspares : one.Spares (.own id) one')
    (hspares' : other.Spares (.own id) other')
    (hentries : ∀ slot : Slot G, slot ≠ .currentAction →
      other'.context.get? slot id.raw = one'.context.get? slot id.raw) :
    one'.Mirrors forest start other' := by
  have hheld : one'.heldAction? = one.heldAction? :=
    hspares.held_action?_eq hone.entity fun hown => hown.1 rfl
  have hheld' : other'.heldAction? = other.heldAction? :=
    hspares'.held_action?_eq hother.entity fun hown => hown.1 rfl
  constructor
  case entity => rw [hother.entity, hone.entity, h.entity]
  case behavior => rw [hother.behavior, hone.behavior, h.behavior]
  case paused => rw [hother.paused, hone.paused, h.paused]
  case clock => rw [hone.ticks, h.clock]
  case ticks => rw [hother.ticks, hone.ticks, h.ticks]
  case selection => exact hselection
  case attached =>
    rw [hone.behavior]
    exact h.attached
  case entries =>
    intro place hplace slot hslot
    by_cases hsame : place = id
    · rw [hsame]
      exact hentries slot hslot
    · -- The entries of the other nodes are the same as before on both sides.
      have hout : ¬ Region.own id slot place.raw := fun hown =>
        hsame (NodeId.raw_inj.1 hown.2)
      rw [hspares' slot place.raw hout, hspares slot place.raw hout]
      exact h.entries place hplace slot hslot
  case outside =>
    refine h.outside.trans (hspares.mono ?_)
    rintro slot key ⟨-, rfl⟩
    exact .inr ⟨id, hid, rfl⟩
  case held => rw [hheld', hheld, h.held]
  case known =>
    rw [hheld']
    exact h.known
  case foreign =>
    rw [hheld]
    exact h.foreign

/-- Agents that remember the same at a node go on agreeing. -/
theorem remember (h : one.Mirrors forest start other) (hid : id ∈ forestIds forest)
    (slot : Slot G) (hslot : slot ≠ .currentAction) (value : slot.Value) :
    (one.remember slot id.raw value).Mirrors forest start (other.remember slot id.raw value) := by
  refine h.step hid ⟨rfl, rfl, rfl, rfl, rfl, rfl⟩ ⟨rfl, rfl, rfl, rfl, rfl, rfl⟩ h.selection
    (one.spares_remember _ slot value ⟨hslot, rfl⟩)
    (other.spares_remember _ slot value ⟨hslot, rfl⟩) fun place hplace => ?_
  by_cases hsame : place = slot
  · subst hsame
    exact (other.context.get?_set_self place id.raw value).trans
      (one.context.get?_set_self place id.raw value).symm
  · rw [other.get?_remember_of_ne slot value (by simp [hsame]),
      one.get?_remember_of_ne slot value (by simp [hsame])]
    exact h.entries id hid place hplace

/-- Agents that forget the same at a node go on agreeing. -/
theorem forget (h : one.Mirrors forest start other) (hid : id ∈ forestIds forest)
    (slot : Slot G) (hslot : slot ≠ .currentAction) :
    (one.forget slot id.raw).Mirrors forest start (other.forget slot id.raw) := by
  refine h.step hid ⟨rfl, rfl, rfl, rfl, rfl, rfl⟩ ⟨rfl, rfl, rfl, rfl, rfl, rfl⟩ h.selection
    (one.spares_forget _ ⟨hslot, rfl⟩) (other.spares_forget _ ⟨hslot, rfl⟩) fun place hplace => ?_
  by_cases hsame : place = slot
  · subst hsame
    exact (other.context.get?_remove_self place id.raw).trans
      (one.context.get?_remove_self place id.raw).symm
  · rw [other.get?_forget_of_ne (by simp [hsame]), one.get?_forget_of_ne (by simp [hsame])]
    exact h.entries id hid place hplace

/-- Agents that settle the same result of a node go on agreeing. -/
theorem settle (h : one.Mirrors forest start other) (hid : id ∈ forestIds forest)
    (status : Status) :
    (one.settle id status).Mirrors forest start (other.settle id status) := by
  have hstored := h.remember hid .status (by simp) status
  refine h.step hid (one.stands_settle id status) (other.stands_settle id status) h.selection
    (one.spares_settle _ status ⟨by simp, rfl⟩) (other.spares_settle _ status ⟨by simp, rfl⟩) ?_
  exact hstored.entries id hid

/-- Agents whose selections change in the same way go on agreeing. -/
theorem select (h : one.Mirrors forest start other) (change : List EntityId → List EntityId) :
    (one.select change).Mirrors forest start (other.select change) :=
  { h with
    selection := by
      show change other.selection = change one.selection
      rw [h.selection]
    outside := h.outside }

/-- What belongs to a node of the trees can see no difference between agents that agree. -/
theorem same_at (h : one.Mirrors forest start other) (hid : id ∈ forestIds forest) :
    one.SameAt id other where
  entity := h.entity
  ticks := h.ticks
  selection := h.selection
  entries slot hopen := h.entries id hid slot (by rintro rfl; exact hopen)

/-! ### The current action -/

/-- Agents that agree keep the same nodes in use. -/
theorem alive_eq (h : one.Mirrors forest start other) (kept : NodeId → Bool) (id : NodeId) :
    other.alive kept id = one.alive kept id := alive_congr h.behavior kept id

/-- An action from elsewhere that must be completed is not alive. -/
theorem not_alive (h : one.Mirrors forest start other) (hunpinned : start.Unpinned forest kept)
    {action : Node G} (hheld : one.heldAction? = some action)
    (hmem : action.id ∉ forestIds forest) (hmust : action.mustComplete) :
    one.alive kept action.id = false := by
  have howns : one.owns action.id = false := by
    rw [owns]
    cases hbehavior : one.behavior with
    | none => rfl
    | some tree =>
        show tree.contains action.id = false
        rw [Bool.eq_false_iff]
        intro hcontains
        exact hmem (mem_forest_ids_of_contains (h.attached tree hbehavior) hcontains)
  rw [alive, hunpinned action (h.foreign action hheld hmem) hmem hmust, howns]
  rfl

/-- Agents that begin to hold the same action of the trees go on agreeing. -/
theorem remember_action (h : one.Mirrors forest start other) (hnode : node ∈ forestNodes forest) :
    (one.remember .currentAction one.entity node).Mirrors forest start
      (other.remember .currentAction other.entity node) := by
  have hheld : (one.remember .currentAction one.entity node).heldAction? = some node :=
    one.context.get?_set_self .currentAction one.entity node
  have hheld' : (other.remember .currentAction other.entity node).heldAction? = some node :=
    other.context.get?_set_self .currentAction other.entity node
  refine { h with entries := ?_, outside := ?_, held := ?_, known := ?_, foreign := ?_ }
  · intro id hid slot hslot
    rw [other.get?_remember_of_ne .currentAction node (by simp [hslot]),
      one.get?_remember_of_ne .currentAction node (by simp [hslot])]
    exact h.entries id hid slot hslot
  · exact h.outside.trans (one.spares_remember _ .currentAction node (.inl rfl))
  · rw [hheld, hheld', Option.filter_some, if_pos (decide_eq_true (mem_forest_ids hnode))]
  · intro action haction
    rw [hheld'] at haction
    rwa [← Option.some.inj haction]
  · intro action haction hmem
    rw [hheld] at haction
    rw [← Option.some.inj haction] at hmem
    exact absurd (mem_forest_ids hnode) hmem

/-- Both agents hold an action of the trees, unless both hold another one that is alive and must
be completed. -/
theorem hold (h : one.Mirrors forest start other) (hunpinned : start.Unpinned forest kept)
    (hnode : node ∈ forestNodes forest) :
    (one.hold kept node).Mirrors forest start (other.hold kept node) := by
  have hboth := h.remember_action hnode
  unfold Agent.hold
  cases hheld : one.heldAction? with
  | none =>
      rw [h.held_of_none hheld]
      exact hboth
  | some action =>
      by_cases hmem : action.id ∈ forestIds forest
      · rw [h.held_of_mem hheld hmem]
        simp only [h.alive_eq]
        split
        · exact h
        · exact hboth
      · -- An action from elsewhere does not pin what is held, and the other agent holds nothing.
        rw [h.held_of_not_mem hheld hmem]
        have hfree : ¬ (action.id ≠ node.id ∧ action.mustComplete ∧ one.alive kept action.id) := by
          rintro ⟨-, hmust, halive⟩
          rw [h.not_alive hunpinned hheld hmem hmust] at halive
          cases halive
        simp only [hfree, ↓reduceIte]
        exact hboth

/-- Agents that release their actions go on agreeing, whatever they held. -/
theorem forget_action (h : one.Mirrors forest start other) :
    (one.forget .currentAction one.entity).Mirrors forest start
      (other.forget .currentAction other.entity) := by
  have hheld : (one.forget .currentAction one.entity).heldAction? = none :=
    one.context.get?_remove_self .currentAction one.entity
  have hheld' : (other.forget .currentAction other.entity).heldAction? = none :=
    other.context.get?_remove_self .currentAction other.entity
  refine { h with entries := ?_, outside := ?_, held := ?_, known := ?_, foreign := ?_ }
  · intro id hid slot hslot
    rw [other.get?_forget_of_ne (by simp [hslot]), one.get?_forget_of_ne (by simp [hslot])]
    exact h.entries id hid slot hslot
  · exact h.outside.trans (one.spares_forget _ (.inl rfl))
  · rw [hheld, hheld']
    rfl
  · intro action haction
    rw [hheld'] at haction
    cases haction
  · intro action haction
    rw [hheld] at haction
    cases haction

/-- Both agents let go of an action of the trees, or neither does. -/
theorem release (h : one.Mirrors forest start other) (hid : id ∈ forestIds forest) :
    (one.release id).Mirrors forest start (other.release id) := by
  have hboth := h.forget_action
  unfold Agent.release
  cases hheld : one.heldAction? with
  | none =>
      rw [h.held_of_none hheld]
      exact h
  | some action =>
      by_cases hmem : action.id ∈ forestIds forest
      · rw [h.held_of_mem hheld hmem]
        dsimp only
        split
        · exact hboth
        · exact h
      · rw [h.held_of_not_mem hheld hmem]
        have hother : action.id ≠ id := by
          rintro rfl
          exact hmem hid
        simp only [hother, ↓reduceIte]
        exact h

/-- Agents that follow up the same leaf go on agreeing. -/
theorem follow (h : one.Mirrors forest start other) (hunpinned : start.Unpinned forest kept)
    (hnode : node ∈ forestNodes forest) (status : Status) :
    (one.follow kept node status).Mirrors forest start (other.follow kept node status) := by
  cases status with
  | running => exact h.hold hunpinned hnode
  | finished | failed => exact h.release (mem_forest_ids hnode)
  | unknown | canNotExecute => exact h

/-- What is local to a node of the trees makes no difference between the agents. -/
theorem local_to (h : one.Mirrors forest start other) (hid : id ∈ forestIds forest)
    {play : Play G α} (hplay : play.LocalTo id) :
    (play other).value = (play one).value ∧ (play other).notes = (play one).notes ∧
      (play one).agent.Mirrors forest start (play other).agent := by
  obtain ⟨hvalue, hnotes, hsame⟩ := hplay.reads (h.same_at hid)
  have hwrites := hplay.writes one
  have hwrites' := hplay.writes other
  have hown : ∀ (slot : Slot G) (key : Nat), slot.IsOpen ∧ key = id.raw →
      Region.own id slot key := by
    rintro slot key ⟨hopen, rfl⟩
    exact ⟨by rintro rfl; exact hopen, rfl⟩
  refine ⟨hvalue, hnotes, h.step hid hwrites.stands hwrites'.stands hsame.selection
    (hwrites.spares.mono hown) (hwrites'.spares.mono hown) fun slot hslot => ?_⟩
  by_cases hopen : slot.IsOpen
  · exact hsame.entries slot hopen
  · -- What the game cannot write was the same before.
    rw [hwrites'.spares slot id.raw fun hin => hopen hin.1,
      hwrites.spares slot id.raw fun hin => hopen hin.1]
    exact h.entries id hid slot hslot

end Mirrors

end Agent

/-! ## Plays that make no difference -/

/-- The same comes of something done with an agent and with one that agrees with it. -/
structure Outcome.Mirrors (forest : List (Tree G)) (one : Outcome G α) (start : Agent G)
    (other : Outcome G α) : Prop where
  value : other.value = one.value
  notes : other.notes = one.notes
  agents : one.agent.Mirrors forest start other.agent

/-- Making no difference between agents that agree on some trees. -/
def Manner.mirrored (forest : List (Tree G)) (start : Agent G) : Manner G where
  holds play := ∀ one other : Agent G, one.Mirrors forest start other →
    (play one).Mirrors forest start (play other)
  done _ _ _ h := ⟨rfl, rfl, h⟩
  next hfirst hsecond one other h := by
    obtain ⟨hvalue, hnotes, hagents⟩ := hfirst one other h
    obtain ⟨hvalue', hnotes', hagents'⟩ := hsecond _ _ _ hagents
    rw [Play.bind_apply, Play.bind_apply, hvalue, hnotes]
    refine ⟨hvalue', ?_, hagents'⟩
    dsimp only
    rw [hnotes']

section Mirrored

variable {forest : List (Tree G)} {start : Agent G} {rules : Rules G} {kept : NodeId → Bool}
  {elapsed : Nat} {node : Node G}

/-- To look at what agents agree about makes no difference. -/
theorem Play.mirrored_look {view : Agent G → α}
    (h : ∀ one other : Agent G, one.Mirrors forest start other → view other = view one) :
    (Manner.mirrored forest start).holds (Play.look view) :=
  fun one other hagents => ⟨h one other hagents, rfl, hagents⟩

/-- A change that agents may both undergo makes no difference. -/
theorem Play.mirrored_change {change : Agent G → Agent G}
    (h : ∀ one other : Agent G, one.Mirrors forest start other →
      (change one).Mirrors forest start (change other)) :
    (Manner.mirrored forest start).holds (Play.change change) :=
  fun one other hagents => ⟨rfl, rfl, h one other hagents⟩

/-- To note something makes no difference. -/
theorem Play.mirrored_note (what : Note) :
    (Manner.mirrored forest start).holds (Play.note what) :=
  fun _ _ hagents => ⟨rfl, rfl, hagents⟩

/-- What is local to a node of the trees makes no difference. -/
theorem Play.LocalTo.mirrored {play : Play G α} {id : NodeId} (h : play.LocalTo id)
    (hid : id ∈ forestIds forest) : (Manner.mirrored forest start).holds play := by
  intro one other hagents
  obtain ⟨hvalue, hnotes, hafter⟩ := hagents.local_to hid h
  exact ⟨hvalue, hnotes, hafter⟩

/-- A filter in the gate of a node makes no difference. -/
theorem Filter.run_mirrored (hrules : rules.Local forest) (hnode : node ∈ forestNodes forest)
    {filter : Filter G} (hfilter : filter ∈ node.filters) :
    (Manner.mirrored forest start).holds (filter.run rules) := by
  cases filter with
  | clear => exact Play.mirrored_change fun _ _ h => h.select fun _ => []
  | unique => exact Play.mirrored_change fun _ _ h => h.select Selection.unique
  | first count => exact Play.mirrored_change fun _ _ h => h.select (List.take count)
  | exclude =>
      refine Play.mirrored_change fun one other h => ?_
      rw [h.entity]
      exact h.select (Selection.exclude one.entity)
  | game name sieve =>
      exact (hrules.sift node hnode name sieve hfilter).mirrored (mem_forest_ids hnode)

namespace Node

/-- The gate of a node of the trees makes no difference. -/
theorem open_mirrored (hrules : rules.Local forest) (hnode : node ∈ forestNodes forest) :
    (Manner.mirrored forest start).holds (node.open rules) := by
  refine Manner.open_gate _ ⟨?_, ?_, ?_, ?_⟩ fun filter hfilter =>
    Filter.run_mirrored hrules hnode hfilter
  · exact fun test => (hrules.test test node).mirrored (mem_forest_ids hnode)
  · refine Play.mirrored_look fun one other h => ?_
    rw [h.selection]
  · exact fun name holds => Play.mirrored_note _
  · exact fun diagnostic => Play.mirrored_note _

/-- The entry into a leaf makes no difference. -/
theorem entry_mirrored (hrules : rules.Local forest) (hnode : node ∈ forestNodes forest) :
    (Manner.mirrored forest start).holds (node.entry rules) := by
  have hid := mem_forest_ids hnode
  cases node with
  | composite head kind children =>
      cases kind with
      | sequence | priority =>
          exact Play.mirrored_change fun _ _ h => h.remember hid .resumeIndex (by simp) (0 : Nat)
      | parallel => exact Manner.done _ ()
  | decorator head kind child => exact Manner.done _ ()
  | timed head duration mustComplete =>
      exact Manner.next _
        (Play.mirrored_change fun _ _ h => h.remember hid .timer (by simp) Timer.unarmed)
        fun _ => Play.mirrored_note _
  | action head name mustComplete leaf =>
      exact Manner.next _ ((hrules.enter leaf head.id).mirrored hid)
        fun _ => Play.mirrored_note _

/-- The conclusion of an execution makes no difference. -/
theorem conclude_mirrored (hnode : node ∈ forestNodes forest) (status : Status) :
    (Manner.mirrored forest start).holds (node.conclude status) :=
  Manner.next _ (Play.mirrored_change fun _ _ h => h.settle (mem_forest_ids hnode) status)
    fun _ => Manner.next _ (Play.mirrored_note _) fun _ => Manner.done _ status

/-- A decorator that counts its child makes no difference. -/
theorem count_child_mirrored (hnode : node ∈ forestNodes forest) (kind : DecoratorKind) :
    (Manner.mirrored forest start).holds (countChild node.id kind) := by
  cases kind with
  | limit bound =>
      refine Play.mirrored_change fun one other h => ?_
      rw [h.exec_count_of_eq (mem_forest_ids hnode)]
      exact h.remember (mem_forest_ids hnode) .execCount (by simp)
        (one.execCountOf node.id + 1 : Nat)
  | _ => exact Manner.done _ ()

/-- All that a node does by itself makes no difference. -/
theorem tends_mirrored (hnode : node ∈ forestNodes forest) :
    (Manner.mirrored forest start).Tends node where
  position := Play.mirrored_look fun _ _ h => h.resume_index_of_eq (mem_forest_ids hnode)
  stop exhausted stop := by
    rcases stop with _ | ⟨index, status⟩
    · exact Manner.next _ (Play.mirrored_change fun _ _ h =>
        h.forget (mem_forest_ids hnode) .resumeIndex (by simp)) fun _ => Manner.done _ exhausted
    · exact Manner.next _ (Play.mirrored_change fun _ _ h =>
        h.remember (mem_forest_ids hnode) .resumeIndex (by simp) index)
        fun _ => Manner.done _ status
  spent kind := by
    cases kind with
    | limit bound =>
        refine Play.mirrored_look fun one other h => ?_
        rw [h.exec_count_of_eq (mem_forest_ids hnode)]
    | _ => exact Manner.done _ false
  answer kind result := by
    cases result with
    | none => exact Manner.next _ (Play.mirrored_note _) fun _ => Manner.done _ _
    | some status => exact Manner.next _ (count_child_mirrored hnode kind) fun _ => Manner.done _ _

/-- The logic of a leaf of the trees makes no difference. -/
theorem logic_mirrored (hrules : rules.Local forest) (hnode : node ∈ forestNodes forest)
    (hleaf : node.family = .action) :
    (Manner.mirrored forest start).holds (node.logic rules kept elapsed) := by
  have hid := mem_forest_ids hnode
  have hacted : ∀ status : Status, (Manner.mirrored forest start).holds (do
      Play.note (.acted node.id status)
      return status) := fun status =>
    Manner.next _ (Play.mirrored_note _) fun _ => Manner.done _ status
  cases node with
  | composite | decorator => simp [family] at hleaf
  | timed head duration mustComplete =>
      refine Manner.next _ ?_ hacted
      refine Manner.next _ (Play.mirrored_look fun one other h => ?_) fun timer =>
        Manner.next _ (Play.mirrored_change fun _ _ h => h.remember hid .timer (by simp) timer)
          fun _ => Manner.done _ _
      have htimer : other.timerOf head.id = one.timerOf head.id := h.timer_of_eq hid
      rw [htimer]
  | action head name mustComplete leaf =>
      exact Manner.next _ ((hrules.act leaf head.id elapsed).mirrored hid) hacted

/-- All that a node of the trees does besides executing children makes no difference. -/
theorem suits_mirrored (hrules : rules.Local forest) (hunpinned : start.Unpinned forest kept)
    (hnode : node ∈ forestNodes forest) :
    (Manner.mirrored forest start).Suits rules kept elapsed node where
  last := Play.mirrored_look fun _ _ h => h.status_of_eq (mem_forest_ids hnode)
  entry := entry_mirrored hrules hnode
  gate := open_mirrored hrules hnode
  conclude := conclude_mirrored hnode
  inner _ := tends_mirrored hnode
  leaf hleaf :=
    { waiting := Play.mirrored_look fun _ _ h => h.waiting?_eq (mem_forest_ids hnode)
      claim := Play.mirrored_change fun _ _ h =>
        h.forget (mem_forest_ids hnode) .completed (by simp)
      logic := logic_mirrored hrules hnode hleaf
      follow := fun status => Play.mirrored_change fun _ _ h => h.follow hunpinned hnode status
      release := Play.mirrored_change fun _ _ h => h.release (mem_forest_ids hnode) }

/-- A node of the trees is executed in the same way for agents that agree on the trees. -/
theorem execute_mirrored (hrules : rules.Local forest) (hunpinned : start.Unpinned forest kept)
    (elapsed : Nat) (hnode : node ∈ forestNodes forest) :
    (Manner.mirrored forest start).holds (node.execute rules kept elapsed) :=
  Manner.execute _ fun _ hother =>
    suits_mirrored hrules hunpinned (forest_nodes_trans hnode hother)

end Node

end Mirrored

end BehaviorTree
