import BehaviorTree.Proofs.FastPath
import BehaviorTree.Proofs.Pairing

/-!
# Numbers and recordings do not matter

Two agents run a tree and a renamed copy of it. They are `Agent.Renamed` if they differ in nothing
but their entities, their recordings, and the names under which they remember things: what the
one keeps under the identity of a node the other keeps under the new one, and the current action
of each is kept under its own entity.

Rules are `Rules.Nameless` if the logic of the game does the same for agents that are so related.
Then updates, pauses and changes of the selection leave them related (`Command.play_renamed`),
and one sees the same of both at every point (`renamed_run`). What others keep in use does not
matter either, as the current action is a node of the tree.
-/

namespace BehaviorTree

variable {G : Game}

/-- New names for nodes, and for what the game's own kinds of values are kept under. -/
structure Renaming (G : Game) where
  node : NodeId → NodeId
  memory : G.Memory → Nat → Nat
  injective : Function.Injective node

namespace Renaming

/-- The key under which the other agent keeps a value. The current action is kept under the
entity and is treated on its own. -/
def key (names : Renaming G) : Slot G → Nat → Nat
  | .resumeIndex | .execCount | .timer | .status | .completed => fun key =>
      (names.node ⟨key⟩).raw
  | .currentAction => fun key => key
  | .game memory => names.memory memory

/-- What is kept at nodes is kept under their new names. -/
theorem key_nodal (names : Renaming G) {slot : Slot G} (h : slot.IsNodal) (id : NodeId) :
    names.key slot id.raw = (names.node id).raw := by
  cases slot with
  | currentAction | game => exact h.elim
  | resumeIndex | execCount | timer | status | completed => rfl

/-- No two keys of nodes become one under new names. -/
theorem key_injective (names : Renaming G) {slot : Slot G} (h : slot.IsNodal) :
    Function.Injective (names.key slot) := by
  intro first second heq
  have hid : names.node ⟨first⟩ = names.node ⟨second⟩ := by
    rw [← NodeId.raw_inj, ← names.key_nodal h, ← names.key_nodal h]
    exact heq
  exact congrArg NodeId.raw (names.injective hid)

end Renaming

namespace Agent

/-- To remember something adds its kind to those that an agent has come across. -/
theorem kinds_remember (agent : Agent G) (slot : Slot G) (key : Nat) (value : slot.Value) :
    (agent.remember slot key value).context.kinds =
      if slot ∈ agent.context.kinds then agent.context.kinds
      else agent.context.kinds ++ [slot] := agent.context.kinds_set slot key value

/-- To forget something leaves the kinds that an agent has come across. -/
theorem kinds_forget (agent : Agent G) (slot : Slot G) (key : Nat) :
    (agent.forget slot key).context.kinds = agent.context.kinds :=
  agent.context.kinds_remove slot key

/-- Two agents agree on everything that has nothing to do with nodes. -/
structure Level (one other : Agent G) : Prop where
  status : other.status = one.status
  selection : other.selection = one.selection
  paused : other.paused = one.paused
  zone : other.zone = one.zone
  ticks : other.ticks = one.ticks

/-- Agents that stand as they did, with their selections, are as level as they were. -/
theorem Level.step {one other one' other' : Agent G} (h : one.Level other)
    (hone : one.Stands one') (hother : other.Stands other')
    (hselection : one'.selection = one.selection)
    (hselection' : other'.selection = other.selection) : one'.Level other' where
  status := by rw [hother.status, hone.status, h.status]
  selection := by rw [hselection, hselection', h.selection]
  paused := by rw [hother.paused, hone.paused, h.paused]
  zone := by rw [hother.zone, hone.zone, h.zone]
  ticks := by rw [hother.ticks, hone.ticks, h.ticks]

/-- The second agent is what the first one is like under new names, with an entity and a
recording of its own. -/
structure Renamed (names : Renaming G) (tree : Tree G) (one other : Agent G) : Prop
    extends one.Level other where
  /-- Both run their copy of the tree, or neither runs any. -/
  behavior : one.behavior = some tree ∧ other.behavior = some (tree.renamed names.node) ∨
    one.behavior = none ∧ other.behavior = none
  kinds : other.context.kinds = one.context.kinds
  entries : ∀ slot, slot ≠ .currentAction → ∀ key,
    other.context.get? slot (names.key slot key) = one.context.get? slot key
  /-- Under a key that is no new name nothing is kept. -/
  strangers : ∀ slot, slot ≠ .currentAction → ∀ key, (∀ old, names.key slot old ≠ key) →
    other.context.get? slot key = none
  held : other.heldAction? = one.heldAction?.map (Node.renamed names.node)
  home : ∀ action ∈ one.heldAction?, action ∈ tree.toNode.preorder
  /-- No current action is kept under another key than the own entity. -/
  alone : ∀ key, key ≠ one.entity → one.context.get? .currentAction key = none
  alone' : ∀ key, key ≠ other.entity → other.context.get? .currentAction key = none

namespace Renamed

variable {names : Renaming G} {tree : Tree G} {one other one' other' : Agent G}

/-- A change of one entry on both sides, under corresponding keys, leaves agents related. -/
theorem of_entry (h : one.Renamed names tree other) {slot : Slot G} (hslot : slot.IsNodal)
    (key : Nat) (hone : one.Stands one') (hother : other.Stands other')
    (hselection : one'.selection = one.selection) (hselection' : other'.selection = other.selection)
    (hkinds : other'.context.kinds = one'.context.kinds)
    (hspares : one.Spares (fun place k => place = slot ∧ k = key) one')
    (hspares' : other.Spares (fun place k => place = slot ∧ k = names.key slot key) other')
    (hentry : other'.context.get? slot (names.key slot key) = one'.context.get? slot key) :
    one'.Renamed names tree other' := by
  have hnotHeld : (.currentAction : Slot G) ≠ slot := by
    rintro rfl
    exact hslot
  have hheld : one'.heldAction? = one.heldAction? :=
    hspares.held_action?_eq hone.entity fun heq => hnotHeld heq.1
  have hheld' : other'.heldAction? = other.heldAction? :=
    hspares'.held_action?_eq hother.entity fun heq => hnotHeld heq.1
  refine ⟨h.toLevel.step hone hother hselection hselection', ?_, hkinds, ?_, ?_, ?_, ?_, ?_, ?_⟩
  · rw [hother.behavior, hone.behavior]
    exact h.behavior
  · intro place hplace k
    -- New names are injective, so an entry that stays on one side stays on the other.
    by_cases hsame : place = slot ∧ k = key
    · rw [hsame.1, hsame.2]
      exact hentry
    · rw [hspares place k hsame, hspares' place _ ?_]
      · exact h.entries place hplace k
      · rintro ⟨rfl, hk⟩
        exact hsame ⟨rfl, names.key_injective hslot hk⟩
  · intro place hplace k hk
    rw [hspares' place k ?_]
    · exact h.strangers place hplace k hk
    · rintro ⟨rfl, rfl⟩
      exact hk key rfl
  · rw [hheld, hheld', h.held]
  · rw [hheld]
    exact h.home
  · intro k hk
    rw [hspares _ _ fun heq => hnotHeld heq.1]
    exact h.alone k (hone.entity ▸ hk)
  · intro k hk
    rw [hspares' _ _ fun heq => hnotHeld heq.1]
    exact h.alone' k (hother.entity ▸ hk)

/-- Agents that remember the same, each under its own name for the node, stay related. -/
theorem remember (h : one.Renamed names tree other) {slot : Slot G} (hslot : slot.IsNodal)
    (id : NodeId) (value : slot.Value) : (one.remember slot id.raw value).Renamed names tree
      (other.remember slot (names.node id).raw value) := by
  rw [← names.key_nodal hslot]
  refine h.of_entry hslot id.raw ⟨rfl, rfl, rfl, rfl, rfl, rfl⟩ ⟨rfl, rfl, rfl, rfl, rfl, rfl⟩ rfl
    rfl ?_ (one.spares_remember _ slot value ⟨rfl, rfl⟩)
    (other.spares_remember _ slot value ⟨rfl, rfl⟩) ?_
  · rw [kinds_remember, kinds_remember, h.kinds]
  · exact (other.context.get?_set_self ..).trans (one.context.get?_set_self ..).symm

/-- Agents that forget the same, each under its own name for the node, stay related. -/
theorem forget (h : one.Renamed names tree other) {slot : Slot G} (hslot : slot.IsNodal)
    (id : NodeId) : (one.forget slot id.raw).Renamed names tree
      (other.forget slot (names.node id).raw) := by
  rw [← names.key_nodal hslot]
  refine h.of_entry hslot id.raw ⟨rfl, rfl, rfl, rfl, rfl, rfl⟩ ⟨rfl, rfl, rfl, rfl, rfl, rfl⟩ rfl
    rfl ?_ (one.spares_forget _ ⟨rfl, rfl⟩) (other.spares_forget _ ⟨rfl, rfl⟩) ?_
  · rw [kinds_forget, kinds_forget, h.kinds]
  · exact (other.context.get?_remove_self ..).trans (one.context.get?_remove_self ..).symm

/-- A change of the current action on both sides leaves agents related if the new ones
correspond. -/
theorem of_action (h : one.Renamed names tree other) (hone : one.Stands one')
    (hother : other.Stands other') (hselection : one'.selection = one.selection)
    (hselection' : other'.selection = other.selection)
    (hkinds : other'.context.kinds = one'.context.kinds)
    (hspares : one.Spares (fun place k => place = .currentAction ∧ k = one.entity) one')
    (hspares' : other.Spares (fun place k => place = .currentAction ∧ k = other.entity) other')
    (hheld : other'.heldAction? = one'.heldAction?.map (Node.renamed names.node))
    (hhome : ∀ action ∈ one'.heldAction?, action ∈ tree.toNode.preorder) :
    one'.Renamed names tree other' := by
  refine ⟨h.toLevel.step hone hother hselection hselection', ?_, hkinds, ?_, ?_, hheld, hhome, ?_,
    ?_⟩
  · rw [hother.behavior, hone.behavior]
    exact h.behavior
  · intro place hplace k
    rw [hspares place k fun heq => hplace heq.1, hspares' place _ fun heq => hplace heq.1]
    exact h.entries place hplace k
  · intro place hplace k hk
    rw [hspares' place k fun heq => hplace heq.1]
    exact h.strangers place hplace k hk
  · intro k hk
    rw [hone.entity] at hk
    rw [hspares _ _ fun heq => hk heq.2]
    exact h.alone k hk
  · intro k hk
    rw [hother.entity] at hk
    rw [hspares' _ _ fun heq => hk heq.2]
    exact h.alone' k hk

/-- Agents that begin to hold the same action, each of its own copy, stay related. -/
theorem hold_action (h : one.Renamed names tree other) {action : Node G}
    (haction : action ∈ tree.toNode.preorder) :
    (one.remember .currentAction one.entity action).Renamed names tree
      (other.remember .currentAction other.entity (action.renamed names.node)) := by
  have hheld : (one.remember .currentAction one.entity action).heldAction? = some action :=
    one.context.get?_set_self ..
  refine h.of_action ⟨rfl, rfl, rfl, rfl, rfl, rfl⟩ ⟨rfl, rfl, rfl, rfl, rfl, rfl⟩ rfl rfl ?_
    (one.spares_remember _ .currentAction action ⟨rfl, rfl⟩)
    (other.spares_remember _ .currentAction _ ⟨rfl, rfl⟩) ?_ ?_
  · refine (other.kinds_remember .currentAction _ _).trans ?_
    rw [h.kinds]
    exact (one.kinds_remember .currentAction _ _).symm
  · rw [hheld]
    exact other.context.get?_set_self ..
  · rw [hheld]
    exact fun held hmem => Option.some.inj hmem ▸ haction

/-- Agents that release their actions stay related. -/
theorem drop_action (h : one.Renamed names tree other) :
    (one.forget .currentAction one.entity).Renamed names tree
      (other.forget .currentAction other.entity) := by
  have hheld : (one.forget .currentAction one.entity).heldAction? = none :=
    one.context.get?_remove_self ..
  refine h.of_action ⟨rfl, rfl, rfl, rfl, rfl, rfl⟩ ⟨rfl, rfl, rfl, rfl, rfl, rfl⟩ rfl rfl ?_
    (one.spares_forget _ ⟨rfl, rfl⟩) (other.spares_forget _ ⟨rfl, rfl⟩) ?_ ?_
  · rw [kinds_forget, kinds_forget, h.kinds]
  · rw [hheld]
    exact other.context.get?_remove_self ..
  · rw [hheld]
    exact fun held hmem => nomatch hmem

/-- Agents that release an action, each under its own name, stay related. -/
theorem release (h : one.Renamed names tree other) (id : NodeId) :
    (one.release id).Renamed names tree (other.release (names.node id)) := by
  unfold Agent.release
  rw [h.held]
  cases one.heldAction? with
  | none => exact h
  | some held =>
      simp only [Option.map_some, Node.id_renamed, names.injective.eq_iff]
      split
      · exact h.drop_action
      · exact h

/-- A leaf of the tree is held on both sides or on neither, if all nodes of the tree are in
use. -/
theorem hold (h : one.Renamed names tree other) {kept kept' : NodeId → Bool}
    (hkept : ∀ node ∈ tree.toNode.preorder, kept node.id = true)
    (hkept' : ∀ node ∈ tree.toNode.preorder, kept' (names.node node.id) = true)
    {action : Node G} (haction : action ∈ tree.toNode.preorder) :
    (one.hold kept action).Renamed names tree
      (other.hold kept' (action.renamed names.node)) := by
  unfold Agent.hold
  rw [h.held]
  cases hheld : one.heldAction? with
  | none => exact h.hold_action haction
  | some held =>
      have hmem := h.home held hheld
      -- Held actions are in use on both sides, so their identities and flags decide alone.
      simp only [Option.map_some, Node.id_renamed, Node.must_complete_renamed, ne_eq,
        names.injective.eq_iff, alive, hkept held hmem, hkept' held hmem, Bool.true_or]
      split
      · exact h
      · exact h.hold_action haction

/-- Agents that follow up the same leaf, each of its own copy, stay related. -/
theorem follow (h : one.Renamed names tree other) {kept kept' : NodeId → Bool}
    (hkept : ∀ node ∈ tree.toNode.preorder, kept node.id = true)
    (hkept' : ∀ node ∈ tree.toNode.preorder, kept' (names.node node.id) = true)
    {action : Node G} (haction : action ∈ tree.toNode.preorder) (status : Status) :
    (one.follow kept action status).Renamed names tree
      (other.follow kept' (action.renamed names.node) status) := by
  cases status with
  | running => exact h.hold hkept hkept' haction
  | finished | failed =>
      simp only [Agent.follow, Node.id_renamed]
      exact h.release action.id
  | unknown | canNotExecute => exact h

/-- Changes that have nothing to do with nodes leave agents related. -/
theorem of_level (h : one.Renamed names tree other) (hlevel : one'.Level other')
    (hentity : one'.entity = one.entity) (hentity' : other'.entity = other.entity)
    (hbehavior : one'.behavior = one.behavior) (hbehavior' : other'.behavior = other.behavior)
    (hcontext : one'.context = one.context) (hcontext' : other'.context = other.context) :
    one'.Renamed names tree other' := by
  obtain ⟨_, behavior, kinds, entries, strangers, held, home, alone, alone'⟩ := h
  refine ⟨hlevel, ?_, ?_, ?_, ?_, ?_, ?_, ?_, ?_⟩
  all_goals simpa only [heldAction?, hentity, hentity', hbehavior, hbehavior', hcontext, hcontext']

/-- Agents that count a tick stay related. -/
theorem next_tick (h : one.Renamed names tree other) :
    one.nextTick.Renamed names tree other.nextTick :=
  h.of_level { h.toLevel with ticks := congrArg (· + 1) h.ticks } rfl rfl rfl rfl rfl rfl

/-- Agents that are both paused or both resumed stay related. -/
theorem with_paused (h : one.Renamed names tree other) (paused : Bool) :
    Agent.Renamed names tree { one with paused } { other with paused } :=
  h.of_level { h.toLevel with paused := rfl } rfl rfl rfl rfl rfl rfl

/-- Agents that take on the same status stay related. -/
theorem with_status (h : one.Renamed names tree other) (status : Status) :
    (one.withStatus status).Renamed names tree (other.withStatus status) :=
  h.of_level { h.toLevel with status := rfl } rfl rfl rfl rfl rfl rfl

/-- Agents whose selections change in the same way stay related. -/
theorem select (h : one.Renamed names tree other) (change : List EntityId → List EntityId) :
    (one.select change).Renamed names tree (other.select change) :=
  h.of_level { h.toLevel with selection := congrArg change h.selection } rfl rfl rfl rfl rfl rfl

/-- Agents stay related whatever they record. -/
theorem record (h : one.Renamed names tree other) (id id' : NodeId) (status : Status) :
    (one.record id status).Renamed names tree (other.record id' status) :=
  h.of_level { h.toLevel with } rfl rfl rfl rfl rfl rfl

/-- The engine does the same for agents that are related by new names. -/
theorem correspondence (names : Renaming G) (tree : Tree G) :
    Correspondence names.node (Agent.Renamed names tree) where
  status h := h.status
  selection h := h.selection
  entry {one other} h slot hslot id := by
    rw [← names.key_nodal hslot]
    exact h.entries slot (by rintro rfl; exact hslot) id.raw
  withStatus := Renamed.with_status
  select := Renamed.select
  remember h _ hslot := h.remember hslot
  forget h _ hslot := h.forget hslot
  record h id status := h.record id (names.node id) status
  release := Renamed.release

end Renamed

end Agent

/-! ## Rules -/

/-- The logic of a game reads neither entities nor the numbers of nodes nor recordings: it does
the same for agents that are related by new names. -/
def Rules.Nameless (rules : Rules G) (names : Renaming G) (tree : Tree G) : Prop :=
  rules.Pairs names.node (Agent.Renamed names tree)

/-- A game whose leaves answer by the clock alone knows no names. -/
theorem Rules.clocked_nameless {Leaf : Type} (answer : Leaf → Nat → Status)
    (names : Renaming (Game.clocked Leaf)) (tree : Tree (Game.clocked Leaf)) :
    (Rules.clocked answer).Nameless names tree where
  enter _ _ := Play.pairs_pure ()
  act leaf _ elapsed := Play.pairs_pure (answer leaf elapsed)
  test := nofun
  sift := nofun

/-- No filter of a tree drops the agent's own entity. -/
def Tree.Impersonal (tree : Tree G) : Prop :=
  ∀ node ∈ tree.toNode.preorder, ∀ filter ∈ node.filters, filter ≠ .exclude

/-! ## Updates -/

namespace Agent.Renamed

variable {rules : Rules G} {names : Renaming G} {tree : Tree G} {one other : Agent G}

/-- A held action of an agent that has its tree is alive, whatever others keep in use. -/
theorem current_action?_attached (h : one.Renamed names tree other)
    (hattached : one.behavior = some tree) (kept : NodeId → Bool) :
    one.currentAction? kept = one.heldAction? := by
  rw [currentAction?]
  cases hheld : one.heldAction? with
  | none => rfl
  | some held =>
      have hcontains : tree.contains held.id = true := Node.contains_of_mem (h.home held hheld)
      simp [Option.filter, alive, owns, hattached, hcontains]

/-- An agent with the renamed tree holds an action of that tree, which nothing takes away. -/
theorem current_action?_attached' (h : one.Renamed names tree other)
    (hattached : other.behavior = some (tree.renamed names.node)) (kept : NodeId → Bool) :
    other.currentAction? kept = other.heldAction? := by
  rw [currentAction?, h.held]
  cases hheld : one.heldAction? with
  | none => rfl
  | some held =>
      have hcontains : (tree.renamed names.node).contains (held.renamed names.node).id = true :=
        Node.contains_of_mem (Tree.mem_renamed (h.home held hheld))
      simp only [Node.id_renamed] at hcontains
      simp [Option.filter, alive, owns, hattached, hcontains]

/-- The current actions of both correspond if what others keep in use does, and in any case as
long as they have their trees. -/
theorem current_action?_eq (h : one.Renamed names tree other) {kept kept' : NodeId → Bool}
    (hkept : one.behavior ≠ none ∨ ∀ id, kept' (names.node id) = kept id) :
    other.currentAction? kept' = (one.currentAction? kept).map (Node.renamed names.node) := by
  rcases h.behavior with ⟨hone, hother⟩ | ⟨hone, hother⟩
  · rw [h.current_action?_attached hone, h.current_action?_attached' hother, h.held]
  · have hsame := hkept.resolve_left fun hne => hne hone
    rw [currentAction?, currentAction?, h.held]
    cases one.heldAction? with
    | none => rfl
    | some held => simp [Option.filter, alive, owns, hone, hother, hsame, apply_ite]

/-- Either agent has its own copy of the action that goes ahead of the tree, or neither has any. -/
theorem pressing_action?_eq (h : one.Renamed names tree other)
    (hattached : one.behavior = some tree)
    (kept kept' : NodeId → Bool) :
    other.pressingAction? kept' = (one.pressingAction? kept).map (Node.renamed names.node) := by
  rw [pressingAction?, pressingAction?, h.current_action?_eq (.inl (by simp [hattached]))]
  cases one.currentAction? kept with
  | none => rfl
  | some held => simp [Option.filter, apply_ite]

/-- The execution of a node of the tree pairs with that of its copy. -/
theorem execute_pairs (hrules : rules.Nameless names tree) (htree : tree.Impersonal)
    (kept kept' : NodeId → Bool) (elapsed : Nat) {node : Node G}
    (hnode : node ∈ tree.toNode.preorder) :
    (node.execute rules (tree.inUse kept) elapsed).Pairs (Agent.Renamed names tree)
      ((node.renamed names.node).execute rules ((tree.renamed names.node).inUse kept')
        elapsed) := by
  have hcorrespondence := correspondence names tree
  have hinUse : ∀ other ∈ tree.toNode.preorder, tree.inUse kept other.id = true :=
    fun other hother => Tree.in_use_of_mem hother kept
  have hinUse' : ∀ other ∈ tree.toNode.preorder,
      (tree.renamed names.node).inUse kept' (names.node other.id) = true := fun other hother => by
    have hcopy := Tree.in_use_of_mem (Tree.mem_renamed (f := names.node) hother) kept'
    rwa [Node.id_renamed] at hcopy
  refine Node.execute_pairs hcorrespondence hrules fun other hother => ?_
  have hmem : other ∈ tree.toNode.preorder := Node.preorder_trans hnode hother
  exact {
    filters := fun filter hfilter =>
      filter.run_pairs hcorrespondence hrules (htree other hmem filter hfilter)
    follow := fun _ _ _ h status => h.follow hinUse hinUse' hmem status }

/-- Updates leave agents related, whatever others keep in use. -/
theorem update (h : one.Renamed names tree other) (hrules : rules.Nameless names tree)
    (htree : tree.Impersonal) (kept kept' : NodeId → Bool) (elapsed : Nat) :
    (Agent.update rules kept elapsed one).agent.Renamed names tree
      (Agent.update rules kept' elapsed other).agent := by
  rcases h.behavior with ⟨hone, hother⟩ | ⟨hone, hother⟩
  · by_cases hpaused : one.paused = true
    · rw [update_idle (.inl hpaused), update_idle (.inl (h.paused.trans hpaused))]
      exact h
    · have hunpaused : one.paused = false := by simpa using hpaused
      have hpressing := h.pressing_action?_eq hone kept kept'
      refine (update_pairs (correspondence names tree) h.next_tick hunpaused
        (h.paused.trans hunpaused) hone hother hpressing
        (execute_pairs hrules htree kept kept' elapsed tree.toNode.self_mem_preorder) ?_).2
      intro action haction
      have hheld : one.heldAction? = some action := by
        rw [pressingAction?, h.current_action?_attached hone] at haction
        exact (Option.filter_eq_some_iff.1 haction).1
      exact execute_pairs hrules htree kept kept' elapsed (h.home action hheld)
  · rw [update_idle (.inr hone), update_idle (.inr hother)]
    exact h

end Agent.Renamed

/-! ## Runs -/

namespace Command

/-- Two agents are given the same command. What others keep in use may differ. -/
inductive Parallel : Command G → Command G → Prop where
  | update (kept kept' : NodeId → Bool) (elapsed : Nat) :
      Parallel (.update kept elapsed) (.update kept' elapsed)
  | setSelection (selection : List EntityId) :
      Parallel (.setSelection selection) (.setSelection selection)
  | setPaused (paused : Bool) : Parallel (.setPaused paused) (.setPaused paused)

variable {rules : Rules G} {names : Renaming G} {tree : Tree G} {one other : Agent G}

/-- The same command leaves agents related. -/
theorem play_renamed (h : one.Renamed names tree other) (hrules : rules.Nameless names tree)
    (htree : tree.Impersonal) {command command' : Command G}
    (hcommand : command.Parallel command') :
    (command.play rules one).agent.Renamed names tree (command'.play rules other).agent := by
  cases hcommand with
  | update kept kept' elapsed =>
      rw [play, play, Play.map_apply, Play.map_apply]
      exact h.update hrules htree kept kept' elapsed
  | setSelection selection => exact h.select fun _ => selection
  | setPaused paused => exact h.with_paused paused

/-- The same commands leave agents related. -/
theorem play_all_renamed (h : one.Renamed names tree other) (hrules : rules.Nameless names tree)
    (htree : tree.Impersonal) {commands commands' : List (Command G)}
    (hcommands : List.Forall₂ Parallel commands commands') :
    (playAll rules commands one).agent.Renamed names tree
      (playAll rules commands' other).agent := by
  induction hcommands generalizing one other with
  | nil => exact h
  | cons hcommand _ ih => exact ih (play_renamed h hrules htree hcommand)

end Command

/-- A new agent with a tree, a selection and perhaps a recording. -/
def Agent.started (entity : EntityId) (tree : Tree G) (selection : List EntityId)
    (trace : Option TraceLog) : Agent G :=
  { Agent.freshWith entity tree with selection, trace }

/-- Agents that start with the two copies of a tree are related, whatever their recordings. -/
theorem Agent.started_renamed (names : Renaming G) (tree : Tree G) (entity entity' : EntityId)
    (selection : List EntityId) (trace trace' : Option TraceLog) :
    (Agent.started entity tree selection trace).Renamed names tree
      (Agent.started entity' (tree.renamed names.node) selection trace') where
  status := rfl
  selection := rfl
  paused := rfl
  zone := rfl
  ticks := rfl
  behavior := .inl ⟨rfl, rfl⟩
  kinds := rfl
  entries _ _ _ := rfl
  strangers _ _ _ _ := rfl
  held := rfl
  home _ hheld := nomatch hheld
  alone _ _ := rfl
  alone' _ _ := rfl

/-- Two new agents run a tree and a renamed copy of it. Whatever their entities and whether they
are recorded, the same updates, pauses and selections leave them with the same status, the same
number of ticks and the same selection, with corresponding current actions, and with entries
that correspond under the new names. -/
theorem renamed_run {rules : Rules G} {names : Renaming G} {tree : Tree G}
    (hrules : rules.Nameless names tree) (htree : tree.Impersonal)
    {commands commands' : List (Command G)}
    (hcommands : List.Forall₂ Command.Parallel commands commands') (entity entity' : EntityId)
    (selection : List EntityId) (trace trace' : Option TraceLog) :
    let one := (Command.playAll rules commands
      (Agent.started entity tree selection trace)).agent
    let other := (Command.playAll rules commands'
      (Agent.started entity' (tree.renamed names.node) selection trace')).agent
    (other.status = one.status ∧ other.ticks = one.ticks ∧ other.selection = one.selection) ∧
      (∀ kept kept' : NodeId → Bool,
        (one.behavior ≠ none ∨ ∀ id, kept' (names.node id) = kept id) →
          other.currentAction? kept' = (one.currentAction? kept).map (Node.renamed names.node)) ∧
        ∀ slot, slot ≠ .currentAction →
          (∀ key, other.context.get? slot (names.key slot key) = one.context.get? slot key) ∧
            ∀ key, (∀ old, names.key slot old ≠ key) → other.context.get? slot key = none := by
  intro one other
  have h : one.Renamed names tree other := Command.play_all_renamed
    (Agent.started_renamed names tree entity entity' selection trace trace') hrules htree hcommands
  refine ⟨⟨h.status, h.ticks, h.selection⟩, ?_, ?_⟩
  · exact fun kept kept' hkept => h.current_action?_eq hkept
  · exact fun slot hslot => ⟨h.entries slot hslot, h.strangers slot hslot⟩

/-- Ten is added to every number. -/
def shiftByTen : Renaming (Game.clocked Unit) where
  node id := ⟨id.raw + 10⟩
  memory := nofun
  injective first second heq := NodeId.raw_inj.1 (by simpa using congrArg NodeId.raw heq)

/-- The tree of the errand has no filter that drops the agent's own entity. -/
theorem errand_tree_impersonal : errandTree.Impersonal := by
  intro node hnode filter hfilter
  simp only [errandTree, Tree.toNode, Node.preorder, Node.preorderChild, Node.preorderAll,
    List.append_nil, List.mem_cons, List.not_mem_nil, or_false, List.cons_append,
    List.nil_append] at hnode
  rcases hnode with rfl | rfl | rfl | rfl <;> simp [Node.filters, Node.gate, Node.head] at hfilter

/-- The entity of the first agent is the number of its busy leaf, and it is recorded. -/
theorem renamed_run_errand :
    let commands := [1, 2, 2].map (Command.update fun _ => false)
    let one := (Command.playAll (Rules.clocked deadline) commands
      (Agent.started 1 errandTree [5] (some TraceLog.empty))).agent
    let other := (Command.playAll (Rules.clocked deadline) commands
      (Agent.started 7 (errandTree.renamed shiftByTen.node) [5] none)).agent
    (one.status = .running ∧ one.heldAction?.map Node.id = some ⟨1⟩) ∧
      (other.status = one.status ∧ other.ticks = one.ticks ∧ other.selection = one.selection) := by
  intro commands one other
  have hcommands : List.Forall₂ Command.Parallel commands commands := by
    simp [commands, Command.Parallel.update]
  refine ⟨⟨by rfl, by rfl⟩, ?_⟩
  exact (renamed_run (Rules.clocked_nameless deadline shiftByTen errandTree)
    errand_tree_impersonal hcommands 1 7 [5] (some TraceLog.empty) none).1

end BehaviorTree
