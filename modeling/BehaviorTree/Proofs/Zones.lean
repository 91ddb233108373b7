import BehaviorTree.Proofs.Activation
import BehaviorTree.Proofs.FastPath
import BehaviorTree.Proofs.Surroundings
import BehaviorTree.Zone

/-!
# Agents in a zone

A run of a zone is a list of `Zone.Command`s: agents come and go, single agents are changed, and
all of them are updated together. `Zone.Command.alone` is what the same run makes of the agent
under one entity if there is no other agent.

An update of the zone updates each agent in the surroundings that the others make up at that moment
(`Zone.get?_update`), and counts those that it updates as it goes (`Zone.ticked_update`). As
surroundings matter only to a must-complete action that the agent holds beyond its tree, an agent
that never depends on others for such an action is the one that it would be alone
(`zone_agents_alone`). So is any agent that runs one tree all the time, shared or not
(`Zone.Command.get?_of_stays`). An agent that does depend on others may go on with the action of a
tree that it no longer has, as long as another agent has that tree
(`zone_agent_keeps_shared_action`).
-/

namespace BehaviorTree

variable {G : Game} {rules : Rules G}

/-- Where no entry has a key, there is no value for it. -/
theorem Table.find?_eq_none {α : Type} {key : Nat} {entries : List (Nat × α)}
    (h : ∀ entry ∈ entries, entry.1 ≠ key) : Table.find? key entries = none := by
  induction entries with
  | nil => rfl
  | cons head rest ih =>
      obtain ⟨hhead, hrest⟩ := List.forall_mem_cons.1 h
      rw [Table.find?, if_neg hhead, ih hrest]

/-- What is found for a key stands among the entries. -/
theorem Table.mem_of_find? {α : Type} {key : Nat} {value : α} {entries : List (Nat × α)}
    (h : Table.find? key entries = some value) : (key, value) ∈ entries := by
  induction entries with
  | nil => exact nomatch h
  | cons head rest ih =>
      rw [Table.find?] at h
      split at h
      · next heq => exact List.mem_cons.2 (.inl (Prod.ext heq.symm (Option.some.inj h).symm))
      · exact List.mem_cons_of_mem head (ih h)

/-- What an update of its zone does with an agent: nothing if it is paused. -/
def Agent.turn (rules : Rules G) (kept : NodeId → Bool) (elapsed : Nat) (agent : Agent G) :
    Agent G :=
  if agent.paused then agent else (Agent.update rules kept elapsed agent).agent

/-- The turn of an agent leaves its entity alone. -/
theorem Agent.entity_turn (hrules : rules.Steady) (kept : NodeId → Bool) (elapsed : Nat)
    (agent : Agent G) : (agent.turn rules kept elapsed).entity = agent.entity := by
  unfold turn
  split
  · rfl
  · exact agent.entity_update hrules kept elapsed

/-- Surroundings make no difference to an agent that is paused, has no tree or is indifferent. -/
theorem Agent.turn_eq (hrules : rules.Steady) {kept kept' : NodeId → Bool} {agent : Agent G}
    (h : agent.paused = false → agent.behavior ≠ none → agent.Indifferent kept kept')
    (elapsed : Nat) :
    agent.turn rules kept' elapsed = agent.turn rules kept elapsed := by
  unfold turn
  split
  · rfl
  · next hpaused =>
      by_cases hbehavior : agent.behavior = none
      · rw [update_idle (.inr hbehavior), update_idle (.inr hbehavior)]
      · have hindifferent := h (by simpa using hpaused) hbehavior
        exact (agent.update_surroundings hrules hindifferent elapsed).2.1

/-- An agent that holds nothing outside the tree it has is indifferent between all surroundings. -/
theorem Agent.Refers.indifferent {tree : Tree G} {agent : Agent G} (h : agent.Refers [tree])
    (hbehavior : agent.behavior ≠ none) (kept kept' : NodeId → Bool) :
    agent.Indifferent kept kept' := by
  obtain ⟨own, hown⟩ := Option.ne_none_iff_exists'.1 hbehavior
  obtain rfl := List.mem_singleton.1 (h.behavior own hown)
  intro held hheld _
  obtain ⟨other, hother, hmem⟩ := List.mem_flatMap.1 (h.held agent.entity held hheld)
  obtain rfl := List.mem_singleton.1 hother
  rw [alive_eq_in_use hown, alive_eq_in_use hown, Tree.in_use_of_mem hmem, Tree.in_use_of_mem hmem]

/-- A change to one agent. The entity of an agent is for good. -/
structure Agent.Change (G : Game) where
  apply : Agent G → Agent G
  entity : ∀ agent, (apply agent).entity = agent.entity

namespace Zone

/-! ## One update -/

/-- The first agent of a list has its turn, and then the others have theirs. It is counted unless
it is paused. -/
theorem update_agents_cons (rules : Rules G) (kept : NodeId → Bool) (elapsed ticked : Nat)
    (earlier : List (Nat × Agent G)) (entity : Nat) (agent : Agent G)
    (rest : List (Nat × Agent G)) :
    let others := fun id => kept id || anyOwns earlier id || anyOwns rest id
    let after := agent.turn rules others elapsed
    let later := updateAgents rules kept elapsed (ticked + if agent.paused then 0 else 1)
      ((entity, after) :: earlier) rest
    (updateAgents rules kept elapsed ticked earlier ((entity, agent) :: rest)).agents =
        (entity, after) :: later.agents ∧
      (updateAgents rules kept elapsed ticked earlier ((entity, agent) :: rest)).ticked =
        later.ticked := by
  cases hpaused : agent.paused <;> simp [updateAgents, Agent.turn, hpaused]

/-- The counter goes up by one for each agent that is not paused when the round starts, as no
agent pauses or wakes another. -/
theorem ticked_update_agents (rules : Rules G) (kept : NodeId → Bool) (elapsed ticked : Nat)
    (earlier agents : List (Nat × Agent G)) :
    (updateAgents rules kept elapsed ticked earlier agents).ticked =
      ticked + agents.countP fun entry => !entry.2.paused := by
  induction agents generalizing ticked earlier with
  | nil => rfl
  | cons head rest ih =>
      obtain ⟨entity, agent⟩ := head
      rw [(update_agents_cons ..).2, ih, List.countP_cons]
      cases agent.paused with
      | true => simp
      | false => simp only [Bool.not_false, ↓reduceIte, Bool.false_eq_true]; omega

/-- What is in use around an agent while its zone is updated: what `kept` says, the trees of the
agents before it as they are after their turns, and the trees of the agents to come. -/
def surroundings (rules : Rules G) (kept : NodeId → Bool) (elapsed : Nat) (zone : Zone G)
    (entity : EntityId) (id : NodeId) : Bool :=
  kept id ||
    anyOwns ((zone.update rules kept elapsed).zone.agents.entries.filter (·.1 < entity)) id ||
    anyOwns (zone.agents.entries.filter (entity < ·.1)) id

/-- The agents of a round keep their keys, so a key that is below all of them stays below. -/
theorem lt_of_mem_update_agents (rules : Rules G) (kept : NodeId → Bool) (elapsed ticked : Nat)
    (earlier : List (Nat × Agent G)) {agents : List (Nat × Agent G)} {key : Nat}
    (h : ∀ entry ∈ agents, key < entry.1) :
    ∀ entry ∈ (updateAgents rules kept elapsed ticked earlier agents).agents, key < entry.1 := by
  intro entry hentry
  have hkey := List.mem_map_of_mem (f := Prod.fst) hentry
  rw [map_fst_update_agents] at hkey
  obtain ⟨other, hother, heq⟩ := List.mem_map.1 hkey
  exact heq ▸ h other hother

/-- Each agent of a list has its turn after those before it and ahead of those behind it. -/
theorem find?_update_agents (rules : Rules G) (kept : NodeId → Bool) (elapsed ticked : Nat)
    {agents : List (Nat × Agent G)} (h : Table.Ascending agents)
    (earlier : List (Nat × Agent G)) (entity : EntityId) :
    let after := (updateAgents rules kept elapsed ticked earlier agents).agents
    let others := fun id => kept id || anyOwns earlier id ||
      anyOwns (after.filter (·.1 < entity)) id || anyOwns (agents.filter (entity < ·.1)) id
    Table.find? entity after =
      (Table.find? entity agents).map (Agent.turn rules others elapsed) := by
  induction agents generalizing ticked earlier with
  | nil => rfl
  | cons head rest ih =>
      obtain ⟨key, agent⟩ := head
      obtain ⟨hfirst, hrest⟩ := List.pairwise_cons.1 h
      rw [(update_agents_cons ..).1]
      dsimp only
      generalize ticked + (if agent.paused then 0 else 1) = counted
      generalize hafter : agent.turn rules
        (fun id => kept id || anyOwns earlier id || anyOwns rest id) elapsed = after
      have hfind := ih counted hrest ((key, after) :: earlier)
      have hkeys :=
        lt_of_mem_update_agents rules kept elapsed counted ((key, after) :: earlier) hfirst
      generalize (updateAgents rules kept elapsed counted ((key, after) :: earlier) rest).agents =
        later at *
      rcases Nat.lt_trichotomy key entity with hlt | rfl | hgt
      · -- The first agent has had its turn when the one in question has its own.
        have hbefore : ((key, after) :: later).filter (·.1 < entity) =
            (key, after) :: later.filter (·.1 < entity) :=
          List.filter_cons_of_pos (decide_eq_true hlt)
        have hbehind : ((key, agent) :: rest).filter (entity < ·.1) =
            rest.filter (entity < ·.1) :=
          List.filter_cons_of_neg (by simpa using hlt.le)
        rw [Table.find?, Table.find?, if_neg hlt.ne, if_neg hlt.ne, hfind, hbefore, hbehind]
        congr 2
        funext id
        simp only [anyOwns, List.any_cons]
        ac_rfl
      · -- The first agent is the one in question, and all others in the list are to come.
        have hbefore : ((key, after) :: later).filter (·.1 < key) = [] := by
          refine List.filter_eq_nil_iff.2 (List.forall_mem_cons.2 ⟨by simp, fun entry hentry => ?_⟩)
          simpa using (hkeys entry hentry).le
        have hbehind : ((key, agent) :: rest).filter (key < ·.1) = rest := by
          rw [List.filter_cons_of_neg (by simp), List.filter_eq_self]
          exact fun entry hentry => decide_eq_true (hfirst entry hentry)
        rw [Table.find?, Table.find?, if_pos rfl, if_pos rfl, hbefore, hbehind, ← hafter]
        simp only [anyOwns, List.any_nil, Bool.or_false, Option.map_some]
      · -- All keys are larger, so there is no agent under the entity.
        have hlater : Table.find? entity later = none :=
          Table.find?_eq_none fun entry hentry => (hgt.trans (hkeys entry hentry)).ne'
        have hnone : Table.find? entity rest = none :=
          Table.find?_eq_none fun entry hentry => (hgt.trans (hfirst entry hentry)).ne'
        rw [Table.find?, Table.find?, if_neg hgt.ne', if_neg hgt.ne', hlater, hnone,
          Option.map_none]

/-- The agent under an entity after an update of the zone is the one before it, after its turn in
its surroundings. -/
theorem get?_update (rules : Rules G) (kept : NodeId → Bool) (elapsed : Nat) (zone : Zone G)
    (entity : EntityId) :
    (zone.update rules kept elapsed).zone.agents.get? entity =
      (zone.agents.get? entity).map
        (Agent.turn rules (zone.surroundings rules kept elapsed entity) elapsed) := by
  have hothers : zone.surroundings rules kept elapsed entity = fun id =>
      kept id || anyOwns (G := G) [] id ||
        anyOwns ((zone.update rules kept elapsed).zone.agents.entries.filter (·.1 < entity)) id ||
        anyOwns (zone.agents.entries.filter (entity < ·.1)) id := by
    funext id
    simp only [surroundings, anyOwns, List.any_nil, Bool.or_false]
  rw [hothers]
  exact find?_update_agents rules kept elapsed 0 zone.agents.ascending [] entity

/-- An update of the zone ticks the agents that are not paused when it starts. -/
theorem ticked_update (rules : Rules G) (kept : NodeId → Bool) (elapsed : Nat) (zone : Zone G) :
    (zone.update rules kept elapsed).ticked =
      (zone.agents.values.filter fun agent => !agent.paused).length := by
  rw [update, ticked_update_agents, Nat.zero_add, Table.values, ← List.countP_eq_length_filter,
    List.countP_map]
  rfl

/-- Changes one agent of a zone, if it is there. -/
def changeAgent (zone : Zone G) (entity : EntityId) (step : Agent.Change G) : Zone G :=
  match zone.agents.get? entity with
  | none => zone
  | some agent => { zone with agents := zone.agents.insert entity (step.apply agent) }

/-! ## What each operation does to the agent under an entity -/

/-- An added agent is under its entity, in the zone. All others stay. -/
theorem get?_add_agent (zone : Zone G) (agent : Agent G) (entity : EntityId) :
    (zone.addAgent agent).value.2.agents.get? entity =
      if agent.entity = entity then some { agent with zone := some zone.id }
      else zone.agents.get? entity :=
  zone.agents.get?_insert agent.entity entity _

/-- A removed agent is under its entity no more. All others stay. -/
theorem get?_remove_agent (zone : Zone G) (other entity : EntityId) :
    (zone.removeAgent other).value.2.agents.get? entity =
      if other = entity then none else zone.agents.get? entity := by
  unfold removeAgent
  cases hother : zone.agents.get? other with
  | some agent => exact zone.agents.get?_erase other entity
  | none =>
      show zone.agents.get? entity = _
      split
      · next heq => exact heq ▸ hother
      · rfl

/-- A change is made to the one agent. All others stay. -/
theorem get?_change_agent (zone : Zone G) (other : EntityId) (step : Agent.Change G)
    (entity : EntityId) :
    (zone.changeAgent other step).agents.get? entity =
      if other = entity then (zone.agents.get? entity).map step.apply
      else zone.agents.get? entity := by
  unfold changeAgent
  by_cases heq : other = entity
  · rw [if_pos heq, heq]
    cases hentity : zone.agents.get? entity with
    | none => exact hentity
    | some agent => exact (Table.get?_insert ..).trans (if_pos rfl)
  · rw [if_neg heq]
    cases zone.agents.get? other with
    | none => rfl
    | some agent => exact (Table.get?_insert ..).trans (if_neg heq)

/-- Every agent is registered under its entity. -/
def Keyed (zone : Zone G) : Prop := ∀ entry ∈ zone.agents.entries, entry.2.entity = entry.1

/-- A round leaves every agent under its own entity. -/
theorem keyed_update_agents (hrules : rules.Steady) {kept : NodeId → Bool} {elapsed : Nat}
    {agents : List (Nat × Agent G)} (h : ∀ entry ∈ agents, entry.2.entity = entry.1)
    (ticked : Nat) (earlier : List (Nat × Agent G)) :
    ∀ entry ∈ (updateAgents rules kept elapsed ticked earlier agents).agents,
      entry.2.entity = entry.1 := by
  induction agents generalizing ticked earlier with
  | nil => exact fun entry hentry => nomatch hentry
  | cons head rest ih =>
      obtain ⟨hhead, hrest⟩ := List.forall_mem_cons.1 h
      rw [(update_agents_cons ..).1]
      exact List.forall_mem_cons.2
        ⟨(Agent.entity_turn hrules _ elapsed head.2).trans hhead, ih hrest _ _⟩

/-- A zone stays keyed when an agent is put in under its own entity. -/
theorem Keyed.insert {zone : Zone G} (h : zone.Keyed) {entity : EntityId} {agent : Agent G}
    (hagent : agent.entity = entity) :
    Keyed { zone with agents := zone.agents.insert entity agent } := by
  intro entry hentry
  rcases Table.mem_put hentry with rfl | hentry
  · exact hagent
  · exact h entry hentry

/-- In a keyed zone an agent has the entity that it is under. -/
theorem Keyed.entity_eq {zone : Zone G} (h : zone.Keyed) {entity : EntityId} {agent : Agent G}
    (hagent : zone.agents.get? entity = some agent) : agent.entity = entity :=
  h (entity, agent) (Table.mem_of_find? hagent)

/-- The entities of the agents of a keyed zone are the keys. -/
theorem Keyed.entities {zone : Zone G} (h : zone.Keyed) :
    zone.agents.values.map Agent.entity = zone.agents.keys := by
  rw [Table.values, Table.keys, List.map_map]
  exact List.map_congr_left h

/-! ## Runs -/

/-- What is done with a zone. What the rest of the world keeps in use is given anew with each
update. -/
inductive Command (G : Game) where
  | addAgent (agent : Agent G)
  | removeAgent (entity : EntityId)
  | update (kept : NodeId → Bool) (elapsed : Nat)
  | change (entity : EntityId) (step : Agent.Change G)

namespace Command

/-- Carries a command out. -/
def play (rules : Rules G) (zone : Zone G) : Command G → Zone G
  | addAgent agent => (zone.addAgent agent).value.2
  | removeAgent entity => (zone.removeAgent entity).value.2
  | update kept elapsed => (zone.update rules kept elapsed).zone
  | change entity step => zone.changeAgent entity step

/-- Carries commands out, one after the other. -/
def playAll (rules : Rules G) : List (Command G) → Zone G → Zone G
  | [], zone => zone
  | command :: rest, zone => playAll rules rest (command.play rules zone)

/-- What a command does with the agent under an entity, if there is one, in a zone without any
other agent. -/
def playAlone (rules : Rules G) (id : ZoneId) (entity : EntityId) (agent : Option (Agent G)) :
    Command G → Option (Agent G)
  | addAgent added => if added.entity = entity then some { added with zone := some id } else agent
  | removeAgent other => if other = entity then none else agent
  | update kept elapsed => agent.map (Agent.turn rules kept elapsed)
  | change other step => if other = entity then agent.map step.apply else agent

/-- What commands make of the agent under an entity in a zone without any other agent. -/
def alone (rules : Rules G) (id : ZoneId) (entity : EntityId) :
    List (Command G) → Option (Agent G) → Option (Agent G)
  | [], agent => agent
  | command :: rest, agent => alone rules id entity rest (command.playAlone rules id entity agent)

/-- Whether a command updates the zone. -/
def isUpdate : Command G → Bool
  | update _ _ => true
  | addAgent _ | removeAgent _ | change _ _ => false

/-- Whether a command removes the agent under an entity, or replaces it. -/
def ends (entity : EntityId) : Command G → Bool
  | addAgent agent => agent.entity = entity
  | removeAgent other => other = entity
  | update _ _ | change _ _ => false

/-- If a command updates the agent under an entity, then the must-complete action that the agent
holds, if any, is not kept alive by the trees of others alone. -/
def Spares (rules : Rules G) (entity : EntityId) (zone : Zone G) : Command G → Prop
  | update kept elapsed => ∀ agent ∈ zone.agents.get? entity,
      agent.paused = false → agent.behavior ≠ none →
        agent.Indifferent kept (zone.surroundings rules kept elapsed entity)
  | addAgent _ | removeAgent _ | change _ _ => True

instance (rules : Rules G) (entity : EntityId) (zone : Zone G) :
    ∀ command : Command G, Decidable (command.Spares rules entity zone)
  | update kept elapsed => inferInstanceAs (Decidable (∀ agent ∈ zone.agents.get? entity,
      agent.paused = false → agent.behavior ≠ none →
        agent.Indifferent kept (zone.surroundings rules kept elapsed entity)))
  | addAgent _ | removeAgent _ | change _ _ => .isTrue trivial

/-- The agent that is under an entity in the end was spared from the trees of others. Agents that
were under the entity before it do not matter. -/
def Undisturbed (rules : Rules G) (entity : EntityId) : List (Command G) → Zone G → Prop
  | [], _ => True
  | command :: rest, zone =>
      (rest.any (ends entity) = false → command.Spares rules entity zone) ∧
        Undisturbed rules entity rest (command.play rules zone)

instance decidableUndisturbed (rules : Rules G) (entity : EntityId) :
    ∀ (commands : List (Command G)) (zone : Zone G),
      Decidable (Undisturbed rules entity commands zone)
  | [], _ => .isTrue trivial
  | command :: rest, zone =>
      have := decidableUndisturbed rules entity rest (command.play rules zone)
      inferInstanceAs (Decidable
        ((rest.any (ends entity) = false → command.Spares rules entity zone) ∧
          Undisturbed rules entity rest (command.play rules zone)))

/-- A zone stays the same zone whatever is done with it. -/
theorem id_play (command : Command G) (zone : Zone G) : (command.play rules zone).id = zone.id := by
  cases command with
  | addAgent | update => rfl
  | removeAgent entity =>
      simp only [play, Zone.removeAgent]
      cases zone.agents.get? entity <;> rfl
  | change entity step =>
      simp only [play, changeAgent]
      cases zone.agents.get? entity <;> rfl

/-- A zone counts its updates as ticks, and nothing else. -/
theorem ticks_play (command : Command G) (zone : Zone G) :
    (command.play rules zone).ticks = zone.ticks + if command.isUpdate then 1 else 0 := by
  cases command with
  | addAgent | update => rfl
  | removeAgent entity =>
      simp only [play, Zone.removeAgent]
      cases zone.agents.get? entity <;> rfl
  | change entity step =>
      simp only [play, changeAgent]
      cases zone.agents.get? entity <;> rfl

/-- A zone stays keyed whatever is done with it. -/
theorem keyed_play (hrules : rules.Steady) {zone : Zone G} (h : zone.Keyed)
    (command : Command G) : (command.play rules zone).Keyed := by
  cases command with
  | addAgent agent => exact h.insert rfl
  | removeAgent entity =>
      simp only [play, Zone.removeAgent]
      cases zone.agents.get? entity with
      | none => exact h
      | some agent => exact fun entry hentry => h entry (List.mem_filter.1 hentry).1
  | update kept elapsed => exact keyed_update_agents hrules h 0 []
  | change entity step =>
      simp only [play, changeAgent]
      cases hagent : zone.agents.get? entity with
      | none => exact h
      | some agent => exact h.insert ((step.entity agent).trans (h.entity_eq hagent))

/-- A command that spares the agent under an entity does with it what it would do to it alone. -/
theorem get?_play (hrules : rules.Steady) {command : Command G} {zone : Zone G}
    {entity : EntityId} (h : command.Spares rules entity zone) :
    (command.play rules zone).agents.get? entity =
      command.playAlone rules zone.id entity (zone.agents.get? entity) := by
  cases command with
  | addAgent agent => exact zone.get?_add_agent agent entity
  | removeAgent other => exact zone.get?_remove_agent other entity
  | update kept elapsed =>
      rw [play, playAlone, get?_update]
      cases hagent : zone.agents.get? entity with
      | none => rw [Option.map_none, Option.map_none]
      | some agent =>
          rw [Option.map_some, Option.map_some, agent.turn_eq hrules (h agent hagent) elapsed]
  | change other step => exact zone.get?_change_agent other step entity

/-- What commands make of an agent that is removed or replaced on the way does not depend on
what it was before. -/
theorem alone_of_ends {commands : List (Command G)} {entity : EntityId}
    (h : commands.any (ends entity) = true) (id : ZoneId) (agent agent' : Option (Agent G)) :
    alone rules id entity commands agent = alone rules id entity commands agent' := by
  induction commands generalizing agent agent' with
  | nil => exact nomatch h
  | cons command rest ih =>
      rw [alone, alone]
      cases hrest : rest.any (ends entity) with
      | true => exact ih hrest _ _
      | false =>
          rw [List.any_cons, hrest, Bool.or_false] at h
          refine congrArg (alone rules id entity rest) ?_
          cases command with
          | addAgent added => rw [playAlone, playAlone, if_pos (of_decide_eq_true h),
              if_pos (of_decide_eq_true h)]
          | removeAgent other => rw [playAlone, playAlone, if_pos (of_decide_eq_true h),
              if_pos (of_decide_eq_true h)]
          | update | change => exact nomatch h

/-- A run makes of the agent under an entity what it would make of it alone. -/
theorem get?_play_all (hrules : rules.Steady) {commands : List (Command G)} {zone : Zone G}
    {entity : EntityId} (h : Undisturbed rules entity commands zone) :
    (playAll rules commands zone).agents.get? entity =
      alone rules zone.id entity commands (zone.agents.get? entity) := by
  induction commands generalizing zone with
  | nil => rfl
  | cons command rest ih =>
      rw [playAll, alone, ih h.2, id_play]
      -- What the command does matters only if the agent is still there in the end.
      cases hrest : rest.any (ends entity) with
      | true => exact alone_of_ends hrest _ _ _
      | false => rw [get?_play hrules (h.1 hrest)]

/-- Whether a command gives the agent under an entity no other tree, nor an action to hold that is
not from the tree. -/
def Stays (tree : Tree G) (entity : EntityId) : Command G → Prop
  | addAgent agent => agent.entity = entity → agent.Refers [tree]
  | change other step =>
      other = entity → ∀ agent, agent.Refers [tree] → (step.apply agent).Refers [tree]
  | removeAgent _ | update _ _ => True

/-- An agent that is given no other tree goes on referring to its own alone. -/
theorem refers_play {tree : Tree G} (hrules : rules.Discreet [tree]) {command : Command G}
    {entity : EntityId} (hcommand : command.Stays tree entity) {zone : Zone G}
    (h : ∀ agent ∈ zone.agents.get? entity, agent.Refers [tree]) :
    ∀ agent ∈ (command.play rules zone).agents.get? entity, agent.Refers [tree] := by
  cases command with
  | addAgent added =>
      rw [play, get?_add_agent]
      split
      · next heq =>
          rintro agent ⟨⟩
          exact (hcommand heq).congr rfl (hcommand heq).behavior
      · exact h
  | removeAgent other =>
      rw [play, get?_remove_agent]
      split
      · exact fun agent hagent => nomatch hagent
      · exact h
  -- What the others have in use does not matter: a discreet game is loyal in all surroundings.
  | update kept elapsed =>
      rw [play, get?_update]
      intro agent hagent
      obtain ⟨before, hbefore, rfl⟩ := Option.map_eq_some_iff.1 hagent
      unfold Agent.turn
      split
      · exact h before hbefore
      · exact Agent.update_refers hrules.loyal _ elapsed before (h before hbefore)
  | change other step =>
      rw [play, get?_change_agent]
      split
      · next heq =>
          intro agent hagent
          obtain ⟨before, hbefore, rfl⟩ := Option.map_eq_some_iff.1 hagent
          exact hcommand heq before (h before hbefore)
      · exact h

/-- An agent that runs one tree all the time is never disturbed, whoever else has the tree. -/
theorem undisturbed_of_stays {tree : Tree G} (hrules : rules.Discreet [tree])
    {commands : List (Command G)} {entity : EntityId}
    (hcommands : ∀ command ∈ commands, command.Stays tree entity) {zone : Zone G}
    (h : ∀ agent ∈ zone.agents.get? entity, agent.Refers [tree]) :
    Undisturbed rules entity commands zone := by
  induction commands generalizing zone with
  | nil => trivial
  | cons command rest ih =>
      obtain ⟨hcommand, hrest⟩ := List.forall_mem_cons.1 hcommands
      refine ⟨fun _ => ?_, ih hrest (refers_play hrules hcommand h)⟩
      cases command with
      | update kept elapsed =>
          exact fun agent hagent _ hbehavior => (h agent hagent).indifferent hbehavior _ _
      | addAgent | removeAgent | change => trivial

/-- An agent that runs one tree all the time is as it would be alone, whoever else has the tree. -/
theorem get?_of_stays {tree : Tree G} (hsteady : rules.Steady) (hrules : rules.Discreet [tree])
    {commands : List (Command G)} {entity : EntityId}
    (hcommands : ∀ command ∈ commands, command.Stays tree entity) (id : ZoneId) :
    (playAll rules commands (Zone.fresh id)).agents.get? entity =
      alone rules id entity commands none :=
  get?_play_all hsteady
    (undisturbed_of_stays hrules hcommands fun _ hagent => absurd hagent (Option.not_mem_none _))

/-- A zone stays keyed whatever is done with it one after another. -/
theorem keyed_play_all (hrules : rules.Steady) {zone : Zone G} (h : zone.Keyed)
    (commands : List (Command G)) : (playAll rules commands zone).Keyed := by
  induction commands generalizing zone with
  | nil => exact h
  | cons command rest ih => exact ih (keyed_play hrules h command)

/-- A zone has counted as many ticks as there were updates. -/
theorem ticks_play_all (commands : List (Command G)) (zone : Zone G) :
    (playAll rules commands zone).ticks = zone.ticks + commands.countP isUpdate := by
  induction commands generalizing zone with
  | nil => rfl
  | cons command rest ih =>
      rw [playAll, ih, ticks_play, List.countP_cons]
      omega

end Command

end Zone

open Zone.Command in
/-- A zone updates each agent as if it were alone, as long as no must-complete action that the
agent holds is kept alive by the trees of others alone. Each update of the zone tells how many of
the agents were not paused when it started, the zone counts its updates, and the agents are in
ascending order of their entities. -/
theorem zone_agents_alone (hrules : rules.Steady) (id : ZoneId)
    (commands : List (Zone.Command G)) :
    let zone := playAll rules commands (Zone.fresh id)
    (∀ entity, Undisturbed rules entity commands (Zone.fresh id) →
      zone.agents.get? entity = alone rules id entity commands none) ∧
    (∀ earlier kept elapsed later, commands = earlier ++ .update kept elapsed :: later →
      let before := playAll rules earlier (Zone.fresh id)
      (before.update rules kept elapsed).ticked =
        (before.agents.values.filter fun agent => !agent.paused).length) ∧
    zone.ticks = commands.countP isUpdate ∧
    (zone.agents.values.map Agent.entity).Pairwise (· < ·) := by
  refine ⟨fun entity h => get?_play_all hrules h, fun earlier kept elapsed later _ => ?_, ?_, ?_⟩
  · exact Zone.ticked_update rules kept elapsed _
  · rw [ticks_play_all, Zone.fresh, Nat.zero_add]
  · rw [(keyed_play_all hrules (fun _ hentry => absurd hentry List.not_mem_nil) commands).entities]
    exact Table.keys_ascending _

/-- A tree with nothing to do. -/
def idleTree : Tree (Game.clocked Unit) where
  head := ⟨⟨3⟩, none⟩
  name := "idle"
  child := some (.composite ⟨⟨2⟩, none⟩ .sequence [])

/-- Gives an agent another tree. -/
def Agent.Change.attach (tree : Tree G) : Agent.Change G where
  apply agent := { agent with behavior := some tree }
  entity _ := rfl

/-- The first agent finishes its must-complete action while the second one, which has the same
tree, is paused and not counted. -/
theorem zone_agents_alone_shared :
    let pause : Agent.Change (Game.clocked Unit) := ⟨fun agent => { agent with paused := true },
      fun _ => rfl⟩
    let earlier : List (Zone.Command (Game.clocked Unit)) :=
      [.addAgent (Agent.freshWith 2 soleTree), .addAgent (Agent.freshWith 1 soleTree),
        .update (fun _ => false) 1, .change 2 pause]
    let commands := earlier ++ [.update (fun _ => false) 2]
    let before := Zone.Command.playAll (Rules.clocked deadline) earlier (Zone.fresh ⟨0⟩)
    let zone := Zone.Command.playAll (Rules.clocked deadline) commands (Zone.fresh ⟨0⟩)
    zone.agents.get? 1 = Zone.Command.alone (Rules.clocked deadline) ⟨0⟩ 1 commands none ∧
      zone.agents.values.map (fun agent => (agent.entity, agent.status)) =
        [(1, .finished), (2, .running)] ∧
      (before.update (Rules.clocked deadline) (fun _ => false) 2).ticked = 1 ∧ zone.ticks = 2 := by
  intro pause earlier commands before zone
  obtain ⟨hagents, hticked, hticks, -⟩ :=
    zone_agents_alone (Rules.clocked_steady deadline) ⟨0⟩ commands
  refine ⟨hagents 1 (by decide +kernel), by decide +kernel, ?_, hticks⟩
  exact (hticked earlier _ 2 [] rfl).trans (by decide +kernel)

/-- Nobody keeps the tree that the first agent had but the second agent, and so the first one goes
on with the action that it holds. Alone it would turn to its new tree. -/
theorem zone_agent_keeps_shared_action :
    let commands : List (Zone.Command (Game.clocked Unit)) :=
      [.addAgent (Agent.freshWith 2 soleTree), .addAgent (Agent.freshWith 1 soleTree),
        .update (fun _ => false) 1, .change 1 (.attach idleTree), .update (fun _ => false) 1]
    let zone := Zone.Command.playAll (Rules.clocked deadline) commands (Zone.fresh ⟨0⟩)
    let alone := Zone.Command.alone (Rules.clocked deadline) ⟨0⟩ 1 commands none
    (zone.agents.get? 1).map Agent.status = some .running ∧
      alone.map Agent.status = some .finished ∧ zone.agents.get? 1 ≠ alone := by
  intro commands zone alone
  have hzone : (zone.agents.get? 1).map Agent.status = some .running := by decide +kernel
  have halone : alone.map Agent.status = some .finished := by decide +kernel
  refine ⟨hzone, halone, fun heq => ?_⟩
  rw [heq, halone] at hzone
  exact nomatch hzone

end BehaviorTree
