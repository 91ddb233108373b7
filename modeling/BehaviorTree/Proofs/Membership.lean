import BehaviorTree.Proofs.Reference
import BehaviorTree.Proofs.Zones
import Mathlib.Logic.ExistsUnique

/-!
# Agents among several zones

An agent that a zone hands back may be added to another zone, or to the same one again. A `World`
has any number of zones and the agents outside of them. As agents of one entity may replace each
other, each agent has a handle of its own in it; `World.Holds` says where the agent of a handle is.

What a zone does with single agents is known from `Zone.get?_add_agent`, `Zone.get?_remove_agent`
and `Zone.get?_update`. From these it follows that a move keeps the world orderly
(`World.Orderly.perform`), and that every agent is in one place at all times and knows which
(`World.membership_exact`).
-/

namespace BehaviorTree

variable {G : Game} {rules : Rules G} {kept : NodeId → Bool} {elapsed : Nat}

/-! ## Agents stay where they are while they are updated -/

/-- The entity and the zone of an agent stay. -/
def Passage.rooted : Passage G where
  allows before _ after := after.entity = before.entity ∧ after.zone = before.zone
  stay _ := ⟨rfl, rfl⟩
  join hfirst hsecond := ⟨hsecond.1.trans hfirst.1, hsecond.2.trans hfirst.2⟩

/-- An agent has its entity for good, and only zones say where it is registered: the logic of a game
leaves both alone. It may do anything else to an agent. -/
structure Rules.Rooted (rules : Rules G) : Prop where
  enter : ∀ leaf id, (rules.enter leaf id).Keeps .rooted
  act : ∀ leaf id elapsed, (rules.act leaf id elapsed).Keeps .rooted
  test : ∀ test node, (rules.test test node).Keeps .rooted
  sift : ∀ sieve, (rules.sift sieve).Keeps .rooted

/-- Logic that leaves entities and zones alone does so at every node. -/
theorem Rules.Rooted.keep (h : rules.Rooted) (node : Node G) : rules.Keep .rooted node :=
  ⟨fun leaf => h.enter leaf node.id, fun leaf => h.act leaf node.id, fun test => h.test test node,
    fun _ sieve _ => h.sift sieve⟩

/-- An agent that stands as it did has the same entity and the same zone. -/
theorem Agent.Stands.rooted {before after : Agent G} (h : before.Stands after) (notes : List Note) :
    Passage.rooted.allows before notes after :=
  ⟨h.entity, h.zone⟩

/-- A game that touches only what is its own leaves the entity and the zone of an agent alone. -/
theorem Rules.Modest.rooted (h : rules.Modest) : rules.Rooted where
  enter leaf id agent := (h.enter leaf id agent).1.stands.rooted _
  act leaf id elapsed agent := (h.act leaf id elapsed agent).1.stands.rooted _
  test test node agent := (h.test test node agent).1.stands.rooted _
  sift sieve agent := (h.sift sieve agent).1.stands.rooted _

/-- What the engine does at a node leaves the entity and the zone of an agent alone. -/
theorem Passage.rooted_works (kept : NodeId → Bool) (node : Node G) :
    Passage.rooted.Works kept node where
  note _ _ _ := ⟨rfl, rfl⟩
  select _ _ := ⟨rfl, rfl⟩
  remember _ _ _ _ _ := ⟨rfl, rfl⟩
  forget _ _ _ _ := ⟨rfl, rfl⟩
  follow agent status := (agent.stands_follow kept node status).rooted []
  release agent := (agent.stands_release node.id).rooted []

/-- An execution leaves the entity and the zone of an agent alone. -/
theorem Node.execute_rooted (hrules : rules.Rooted) (kept : NodeId → Bool) (elapsed : Nat)
    (node : Node G) : (node.execute rules kept elapsed).Keeps .rooted :=
  Passage.rooted.manner.execute fun other _ =>
    (Passage.rooted_works kept other).suits (hrules.keep other) fun _ _ => ⟨rfl, rfl⟩

namespace Agent

/-- An update leaves the entity and the zone of an agent alone. -/
theorem update_rooted (hrules : rules.Rooted) (kept : NodeId → Bool) (elapsed : Nat) :
    (Agent.update rules kept elapsed).Keeps .rooted := by
  intro agent
  have hcourse := update_course rules kept elapsed agent
  generalize agent.updateVisits rules kept elapsed = visits at hcourse
  generalize Agent.update rules kept elapsed agent = outcome at hcourse ⊢
  cases hcourse with
  | idle => exact ⟨rfl, rfl⟩
  | @free tree root _ _ _ hroot =>
      subst hroot
      exact Node.execute_rooted hrules _ elapsed tree.toNode agent.nextTick
  | @busy tree action alone _ _ _ halone _ =>
      subst halone
      exact Node.execute_rooted hrules _ elapsed action agent.nextTick
  | @ended tree action alone root final _ _ _ halone _ hroot hfinal =>
      subst hfinal hroot
      have hafter := Node.execute_rooted hrules (tree.inUse kept) elapsed tree.toNode
        (alone.agent.withWaiting action.id alone.value)
      have halone : Passage.rooted.allows agent alone.notes alone.agent :=
        halone ▸ Node.execute_rooted hrules _ elapsed action agent.nextTick
      exact ⟨hafter.1.trans halone.1, hafter.2.trans halone.2⟩

/-- Whatever a turn does with an agent, it moves it nowhere. -/
theorem turn_rooted (hrules : rules.Rooted) (kept : NodeId → Bool) (elapsed : Nat)
    (agent : Agent G) :
    (agent.turn rules kept elapsed).entity = agent.entity ∧
      (agent.turn rules kept elapsed).zone = agent.zone := by
  unfold turn
  split
  · exact ⟨rfl, rfl⟩
  · exact update_rooted hrules kept elapsed agent

end Agent

namespace Zone

/-- A zone from which an agent is removed stays the same zone. -/
theorem id_remove_agent (zone : Zone G) (entity : EntityId) :
    (zone.removeAgent entity).value.2.id = zone.id := by
  unfold removeAgent
  cases zone.agents.get? entity <;> rfl

/-- A zone hands back the agent that was registered under the entity of the new one. -/
theorem add_agent_fst (zone : Zone G) (agent : Agent G) :
    (zone.addAgent agent).value.1 =
      (zone.agents.get? agent.entity).map fun agent => { agent with zone := none } :=
  rfl

/-- A zone hands back the agent of an entity, which is in no zone from then on. -/
theorem remove_agent_fst (zone : Zone G) (entity : EntityId) :
    (zone.removeAgent entity).value.1 =
      (zone.agents.get? entity).map fun agent => { agent with zone := none } := by
  unfold removeAgent
  cases zone.agents.get? entity <;> rfl

end Zone

/-! ## Worlds -/

/-- Zones, and the agents outside of them. An agent is known by its handle, whatever its entity and
whoever else has that. -/
structure World (G : Game) where
  zones : Nat → Zone G
  outside : Nat → Option (Agent G)
  /-- Whose agent is registered in a zone under an entity. -/
  seats : Nat → EntityId → Option Nat

namespace World

/-- A place where an agent may be. -/
inductive Spot where
  | outside
  | zone (index : Nat) (entity : EntityId)
  deriving DecidableEq

/-- The agent of a handle is in a place. -/
def Holds (world : World G) (handle : Nat) : Spot → Agent G → Prop
  | .outside, agent => world.outside handle = some agent
  | .zone index entity, agent => world.seats index entity = some handle ∧
      (world.zones index).agents.get? entity = some agent

/-- A call of a zone. An agent that is to be added has to be outside. -/
inductive Move where
  | add (index handle : Nat)
  | remove (index : Nat) (entity : EntityId)
  | update (index : Nat) (kept : NodeId → Bool) (elapsed : Nat)

/-- The agents outside after a zone has handed back the agent of a seat. If there was one and
nothing is handed back, it is lost. -/
def handBack (seat : Option Nat) (agent : Option (Agent G)) (outside : Nat → Option (Agent G)) :
    Nat → Option (Agent G) :=
  match seat with
  | none => outside
  | some handle => Function.update outside handle agent

/-- The world after a move. What a zone hands back is outside from then on. -/
def perform (rules : Rules G) (world : World G) : Move → World G
  | .add index handle =>
      match world.outside handle with
      | none => world
      | some agent =>
          let added := ((world.zones index).addAgent agent).value
          { zones := Function.update world.zones index added.2
            outside := handBack (world.seats index agent.entity) added.1
              (Function.update world.outside handle none)
            seats := Function.update world.seats index
              (Function.update (world.seats index) agent.entity (some handle)) }
  | .remove index entity =>
      let removed := ((world.zones index).removeAgent entity).value
      { zones := Function.update world.zones index removed.2
        outside := handBack (world.seats index entity) removed.1 world.outside
        seats := Function.update world.seats index
          (Function.update (world.seats index) entity none) }
  | .update index kept elapsed =>
      { world with
        zones := Function.update world.zones index
          ((world.zones index).update rules kept elapsed).zone }

/-- The world after moves. -/
def performAll (rules : Rules G) (world : World G) (moves : List Move) : World G :=
  moves.foldl (perform rules) world

/-- New zones, and agents that are in none of them. -/
def start (ids : Nat → ZoneId) (agents : Nat → Option (Agent G)) : World G where
  zones index := Zone.fresh (ids index)
  outside := agents
  seats _ _ := none

/-- The agent that is registered in a zone under an entity. -/
def agent? (world : World G) (index : Nat) (entity : EntityId) : Option (Agent G) :=
  (world.zones index).agents.get? entity

/-! ## What a move does to zones, agents and seats -/

variable {world : World G}

/-- Only the agent of the seat is handed back. All others are where they were. -/
theorem hand_back_apply (seat : Option Nat) (agent : Option (Agent G))
    (outside : Nat → Option (Agent G)) (handle : Nat) :
    handBack seat agent outside handle = if seat = some handle then agent else outside handle := by
  cases seat with
  | none => rfl
  | some other => simp [handBack, Function.update_apply, eq_comm]

/-- Zones keep their identities. -/
theorem id_perform (move : Move) (index : Nat) :
    ((world.perform rules move).zones index).id = (world.zones index).id := by
  have hupdate {other : Nat} {zone : Zone G} (h : zone.id = (world.zones other).id) :
      (Function.update world.zones other zone index).id = (world.zones index).id := by
    rw [Function.update_apply]
    split
    · rename_i heq
      exact heq ▸ h
    · rfl
  cases move with
  | add other handle =>
      rw [perform]
      cases world.outside handle with
      | none => rfl
      | some agent => exact hupdate rfl
  | remove other entity => exact hupdate (Zone.id_remove_agent _ _)
  | update other kept elapsed => exact hupdate rfl

variable {handle : Nat} {agent : Agent G}

/-- An added agent is registered under its entity and knows its zone. All others stay. -/
theorem agent?_add (h : world.outside handle = some agent) (index index' : Nat)
    (entity : EntityId) :
    (world.perform rules (.add index handle)).agent? index' entity =
      if index' = index ∧ agent.entity = entity then
        some { agent with zone := some (world.zones index).id }
      else world.agent? index' entity := by
  by_cases hindex : index' = index
  · subst hindex
    simpa [agent?, perform, h] using Zone.get?_add_agent ..
  · simp [agent?, perform, h, hindex]

/-- An added agent takes the seat of its entity. All other seats stay. -/
theorem seats_add (h : world.outside handle = some agent) (index index' : Nat)
    (entity : EntityId) :
    (world.perform rules (.add index handle)).seats index' entity =
      if index' = index ∧ agent.entity = entity then some handle
      else world.seats index' entity := by
  by_cases hindex : index' = index
  · subst hindex
    simp [perform, h, Function.update_apply, eq_comm]
  · simp [perform, h, hindex]

/-- An added agent is not outside any more, and the one whose seat it takes is. -/
theorem outside_add (h : world.outside handle = some agent) (index other : Nat) :
    (world.perform rules (.add index handle)).outside other =
      if world.seats index agent.entity = some other then
        (world.agent? index agent.entity).map fun agent => { agent with zone := none }
      else if other = handle then none else world.outside other := by
  simp only [perform, h, hand_back_apply, Function.update_apply]
  rfl

/-- A removed agent is registered no more. All others stay. -/
theorem agent?_remove (index index' : Nat) (entity entity' : EntityId) :
    (world.perform rules (.remove index entity)).agent? index' entity' =
      if index' = index ∧ entity = entity' then none else world.agent? index' entity' := by
  by_cases hindex : index' = index
  · subst hindex
    simpa [agent?, perform] using Zone.get?_remove_agent ..
  · simp [agent?, perform, hindex]

/-- The seat of a removed agent is free. All other seats stay. -/
theorem seats_remove (index index' : Nat) (entity entity' : EntityId) :
    (world.perform rules (.remove index entity)).seats index' entity' =
      if index' = index ∧ entity = entity' then none else world.seats index' entity' := by
  by_cases hindex : index' = index
  · subst hindex
    simp [perform, Function.update_apply, eq_comm]
  · simp [perform, hindex]

/-- A removed agent is outside, in no zone. All others are outside if they were. -/
theorem outside_remove (index handle : Nat) (entity : EntityId) :
    (world.perform rules (.remove index entity)).outside handle =
      if world.seats index entity = some handle then
        (world.agent? index entity).map fun agent => { agent with zone := none }
      else world.outside handle := by
  simp only [perform, hand_back_apply, Zone.remove_agent_fst]
  rfl

/-- An update gives each agent of the zone its turn, and no agent of another zone. -/
theorem agent?_update (index index' : Nat) (entity : EntityId) :
    (world.perform rules (.update index kept elapsed)).agent? index' entity =
      if index' = index then (world.agent? index entity).map
        (Agent.turn rules ((world.zones index).surroundings rules kept elapsed entity) elapsed)
      else world.agent? index' entity := by
  by_cases hindex : index' = index
  · subst hindex
    simpa [agent?, perform] using Zone.get?_update ..
  · simp [agent?, perform, hindex]

/-! ## Order is kept -/

/-- The agents of some handles are in one place each, and no other agents are anywhere. Those in a
zone are registered under their entities and know the zone. -/
structure Orderly (everyone : Nat → Prop) (world : World G) : Prop where
  home : ∀ {index entity agent}, world.agent? index entity = some agent →
    agent.entity = entity ∧ agent.zone = some (world.zones index).id
  away : ∀ {handle agent}, world.outside handle = some agent → agent.zone = none
  seated : ∀ index entity,
    (world.seats index entity).isSome = (world.agent? index entity).isSome
  once : ∀ {index entity index' entity' handle}, world.seats index entity = some handle →
    world.seats index' entity' = some handle → index = index' ∧ entity = entity'
  apart : ∀ {index entity handle}, world.seats index entity = some handle →
    world.outside handle = none
  present : ∀ handle, everyone handle ↔
    (world.outside handle).isSome ∨ ∃ index entity, world.seats index entity = some handle

namespace Orderly

variable {everyone : Nat → Prop}

/-- Agents in no zone and new zones are in order. -/
theorem start {agents : Nat → Option (Agent G)}
    (h : ∀ handle agent, agents handle = some agent → agent.zone = none) (ids : Nat → ZoneId) :
    (World.start ids agents).Orderly fun handle => (agents handle).isSome where
  home h := nomatch h
  away hagent := h _ _ hagent
  seated _ _ := rfl
  once h := nomatch h
  apart h := nomatch h
  present handle := by simp [World.start]

/-- Whoever has a seat is registered. -/
theorem occupied (h : world.Orderly everyone) {index : Nat} {entity : EntityId}
    (hseat : world.seats index entity = some handle) :
    (world.agent? index entity).isSome := by
  rw [← h.seated, hseat]
  rfl

/-- A zone may hand back the agent of a seat. -/
theorem remove (h : world.Orderly everyone) (index : Nat) (entity : EntityId) :
    (world.perform rules (.remove index entity)).Orderly everyone where
  home {index' entity' agent'} hagent := by
    rw [agent?_remove] at hagent
    split at hagent
    · exact nomatch hagent
    · rw [id_perform]
      exact h.home hagent
  away {other agent'} hagent := by
    rw [outside_remove] at hagent
    split at hagent
    · obtain ⟨old, -, rfl⟩ := Option.map_eq_some_iff.1 hagent
      rfl
    · exact h.away hagent
  seated index' entity' := by
    rw [agent?_remove, seats_remove]
    split
    · rfl
    · exact h.seated index' entity'
  once hseat hseat' := by
    rw [seats_remove] at hseat hseat'
    split at hseat <;> split at hseat' <;> first | contradiction | exact h.once hseat hseat'
  apart {index' entity' other} hseat := by
    rw [seats_remove] at hseat
    rw [outside_remove]
    split at hseat
    · exact nomatch hseat
    · rename_i hother
      split
      · rename_i hvacated
        exact absurd (h.once hseat hvacated) (by grind)
      · exact h.apart hseat
  -- Who was in the vacated seat is outside now; nobody else has moved.
  present other := by
    rw [h.present]
    simp only [outside_remove, seats_remove]
    have hoccupied : world.seats index entity = some other →
        (world.agent? index entity).isSome := h.occupied
    grind

/-- A zone may take an agent from outside and hand back the one that it replaces. -/
theorem add (h : world.Orderly everyone) (hagent : world.outside handle = some agent)
    (index : Nat) : (world.perform rules (.add index handle)).Orderly everyone := by
  -- The agent comes from outside, so it has no seat yet.
  have hfree {index' : Nat} {entity : EntityId} : world.seats index' entity ≠ some handle :=
    fun hseat => nomatch hagent.symm.trans (h.apart hseat)
  refine {
    home := fun {index' entity agent'} hagent' => ?_
    away := fun {other agent'} hagent' => ?_
    seated := fun index' entity => ?_
    once := fun {index' entity index'' entity' other} hseat hseat' => ?_
    apart := fun {index' entity other} hseat => ?_
    present := fun other => ?_ }
  · rw [agent?_add hagent] at hagent'
    rw [id_perform]
    split at hagent'
    · rename_i hplace
      cases hagent'
      exact ⟨hplace.2, by rw [hplace.1]⟩
    · exact h.home hagent'
  · rw [outside_add hagent] at hagent'
    split at hagent'
    · obtain ⟨old, -, rfl⟩ := Option.map_eq_some_iff.1 hagent'
      rfl
    · split at hagent'
      · exact nomatch hagent'
      · exact h.away hagent'
  · rw [agent?_add hagent, seats_add hagent]
    split
    · rfl
    · exact h.seated index' entity
  · rw [seats_add hagent] at hseat hseat'
    split at hseat <;> split at hseat'
    · grind
    · exact absurd (hseat'.trans hseat.symm) hfree
    · exact absurd (hseat.trans hseat'.symm) hfree
    · exact h.once hseat hseat'
  · rw [seats_add hagent] at hseat
    rw [outside_add hagent]
    split at hseat
    · cases hseat
      rw [if_neg hfree, if_pos rfl]
    · rename_i hother
      have hkeeps : world.seats index agent.entity ≠ some other :=
        fun hvacated => absurd (h.once hseat hvacated) (by grind)
      rw [if_neg hkeeps, h.apart hseat, ite_self]
  · rw [h.present]
    simp only [outside_add hagent, seats_add hagent]
    have hoccupied : world.seats index agent.entity = some other →
        (world.agent? index agent.entity).isSome := h.occupied
    grind

/-- An update moves nobody. -/
theorem update (hrules : rules.Rooted) (h : world.Orderly everyone) (index : Nat)
    (kept : NodeId → Bool) (elapsed : Nat) :
    (world.perform rules (.update index kept elapsed)).Orderly everyone where
  home {index' entity agent'} hagent := by
    rw [agent?_update] at hagent
    rw [id_perform]
    split at hagent
    · rename_i hindex
      obtain ⟨before, hbefore, rfl⟩ := Option.map_eq_some_iff.1 hagent
      obtain ⟨hentity, hzone⟩ := before.turn_rooted hrules _ elapsed
      rw [hentity, hzone, hindex]
      exact h.home hbefore
    · exact h.home hagent
  away := h.away
  seated index' entity := by
    rw [agent?_update]
    split
    · rename_i hindex
      rw [Option.isSome_map, hindex]
      exact h.seated index entity
    · exact h.seated index' entity
  once := h.once
  apart := h.apart
  present := h.present

/-- A move keeps order. -/
theorem perform (hrules : rules.Rooted) (h : world.Orderly everyone) (move : Move) :
    (world.perform rules move).Orderly everyone := by
  cases move with
  | add index handle =>
      cases hagent : world.outside handle with
      | none =>
          rw [World.perform, hagent]
          exact h
      | some agent => exact h.add hagent index
  | remove index entity => exact h.remove index entity
  | update index kept elapsed => exact h.update hrules index kept elapsed

/-- Moves keep order. -/
theorem perform_all (hrules : rules.Rooted) (h : world.Orderly everyone) (moves : List Move) :
    (world.performAll rules moves).Orderly everyone := by
  induction moves generalizing world with
  | nil => exact h
  | cons move rest ih => exact ih (h.perform hrules move)

end Orderly

/-! ## Where the agents are -/

/-- Whether a move is about the agent of a handle, or about the place where it is. -/
def Move.Concerns (world : World G) (handle : Nat) (spot : Spot) : Move → Prop
  | .add index added => ∃ agent, world.outside added = some agent ∧
      (handle = added ∨ spot = .zone index agent.entity)
  | .remove index entity => spot = .zone index entity
  | .update index _ _ => ∃ entity, spot = .zone index entity

namespace Orderly

variable {everyone : Nat → Prop} {spot : Spot}

/-- An agent knows the zone in which it is registered, under its own entity. -/
theorem zone_iff (h : world.Orderly everyone) (hholds : world.Holds handle spot agent)
    (id : ZoneId) :
    agent.zone = some id ↔
      ∃ index, spot = .zone index agent.entity ∧ (world.zones index).id = id := by
  cases spot with
  | outside => simp [h.away hholds]
  | zone index entity =>
      obtain ⟨hentity, hzone⟩ := h.home hholds.2
      simp [hentity, hzone]

/-- The agent of a handle is in one place. -/
theorem exists_unique_spot (h : world.Orderly everyone) (heveryone : everyone handle) :
    ∃! spot, ∃ agent, world.Holds handle spot agent := by
  rcases (h.present handle).1 heveryone with houtside | ⟨index, entity, hseat⟩
  · obtain ⟨agent, hagent⟩ := Option.isSome_iff_exists.1 houtside
    refine ⟨.outside, ⟨agent, hagent⟩, fun spot ⟨other, hother⟩ => ?_⟩
    cases spot with
    | outside => rfl
    | zone index entity => exact nomatch hagent.symm.trans (h.apart hother.1)
  · obtain ⟨agent, hagent⟩ := Option.isSome_iff_exists.1 (h.occupied hseat)
    refine ⟨.zone index entity, ⟨agent, hseat, hagent⟩, fun spot ⟨other, hother⟩ => ?_⟩
    cases spot with
    | outside => exact nomatch hother.symm.trans (h.apart hseat)
    | zone index' entity' =>
        obtain ⟨rfl, rfl⟩ := h.once hother.1 hseat
        rfl

/-- Every registered agent has a handle. -/
theorem exists_handle (h : world.Orderly everyone) {index : Nat} {entity : EntityId}
    (hagent : (world.zones index).agents.get? entity = some agent) :
    ∃ handle, everyone handle ∧ world.Holds handle (.zone index entity) agent := by
  have hseat := h.seated index entity
  rw [agent?, hagent, Option.isSome_some, Option.isSome_iff_exists] at hseat
  obtain ⟨handle, hseat⟩ := hseat
  exact ⟨handle, (h.present handle).2 (.inr ⟨index, entity, hseat⟩), hseat, hagent⟩

/-- A move does nothing to agents that it is not about. -/
theorem stays (h : world.Orderly everyone) {move : Move} (hholds : world.Holds handle spot agent)
    (hmove : ¬ move.Concerns world handle spot) :
    (world.perform rules move).Holds handle spot agent := by
  cases move with
  | add index added =>
      cases hadded : world.outside added with
      | none => rwa [World.perform, hadded]
      -- The move is about the added agent and the one whose seat it takes.
      | some other =>
          have hothers : handle ≠ added ∧ spot ≠ .zone index other.entity :=
            not_or.1 fun hconcerns => hmove ⟨other, hadded, hconcerns⟩
          cases spot with
          | outside =>
              have hseat : world.seats index other.entity ≠ some handle :=
                fun hseat => nomatch hholds.symm.trans (h.apart hseat)
              rw [Holds, outside_add hadded, if_neg hseat, if_neg hothers.1]
              exact hholds
          | zone index' entity =>
              have hplace : ¬ (index' = index ∧ other.entity = entity) :=
                fun ⟨hindex, hentity⟩ => hothers.2 (hindex ▸ hentity ▸ rfl)
              rw [Holds, ← agent?, seats_add hadded, agent?_add hadded, if_neg hplace,
                if_neg hplace]
              exact hholds
  | remove index entity =>
      cases spot with
      | outside =>
          have hseat : world.seats index entity ≠ some handle :=
            fun hseat => nomatch hholds.symm.trans (h.apart hseat)
          rw [Holds, outside_remove, if_neg hseat]
          exact hholds
      | zone index' entity' =>
          have hplace : ¬ (index' = index ∧ entity = entity') :=
            fun ⟨hindex, hentity⟩ => hmove (hindex ▸ hentity ▸ rfl)
          rw [Holds, ← agent?, seats_remove, agent?_remove, if_neg hplace, if_neg hplace]
          exact hholds
  | update index kept elapsed =>
      cases spot with
      | outside => exact hholds
      | zone index' entity =>
          have hindex : index' ≠ index := fun hindex => hmove ⟨entity, hindex ▸ rfl⟩
          refine ⟨hholds.1, ?_⟩
          rw [← agent?, agent?_update, if_neg hindex]
          exact hholds.2

/-- Where nobody is registered, nobody can be removed: nothing is answered and nothing changes. -/
theorem missing (h : world.Orderly everyone) {index : Nat} {entity : EntityId}
    (hnone : (world.zones index).agents.get? entity = none) :
    (world.zones index).removeAgent entity = { value := (none, world.zones index) } ∧
      world.perform rules (.remove index entity) = world := by
  have hremove :
      (world.zones index).removeAgent entity = { value := (none, world.zones index) } := by
    rw [Zone.removeAgent, hnone]
  have hseat : world.seats index entity = none := by
    have hseated := h.seated index entity
    rwa [agent?, hnone, Option.isSome_none, Option.isSome_eq_false_iff,
      Option.isNone_iff_eq_none] at hseated
  refine ⟨hremove, ?_⟩
  rw [World.perform, hremove, hseat, handBack, ← hseat]
  simp only [Function.update_eq_self]

end Orderly

namespace Holds

/-- An added agent is in the zone, which it knows now. -/
theorem added (hholds : world.Holds handle .outside agent) (index : Nat) :
    (world.perform rules (.add index handle)).Holds handle (.zone index agent.entity)
      { agent with zone := some (world.zones index).id } := by
  rw [Holds, ← agent?, seats_add hholds, agent?_add hholds]
  simp

/-- An agent that is replaced is handed back, in no zone and else as it was. -/
theorem replaced {other : Nat} {old : Agent G} {index : Nat}
    (hholds : world.Holds handle .outside agent)
    (hold : world.Holds other (.zone index agent.entity) old) :
    ((world.zones index).addAgent agent).value.1 = some { old with zone := none } ∧
      (world.perform rules (.add index handle)).Holds other .outside { old with zone := none } := by
  refine ⟨by rw [Zone.add_agent_fst, hold.2, Option.map_some], ?_⟩
  rw [Holds, outside_add hholds, if_pos hold.1, agent?, hold.2, Option.map_some]

/-- An agent that is removed is handed back, in no zone and else as it was. -/
theorem removed {index : Nat} {entity : EntityId}
    (hholds : world.Holds handle (.zone index entity) agent) :
    ((world.zones index).removeAgent entity).value.1 = some { agent with zone := none } ∧
      (world.perform rules (.remove index entity)).Holds handle .outside
        { agent with zone := none } := by
  refine ⟨by rw [Zone.remove_agent_fst, hholds.2, Option.map_some], ?_⟩
  rw [Holds, outside_remove, if_pos hholds.1, agent?, hholds.2, Option.map_some]

/-- An update moves no agent of its zone. -/
theorem updated {index : Nat} {entity : EntityId}
    (hholds : world.Holds handle (.zone index entity) agent) (hrules : rules.Rooted)
    (kept : NodeId → Bool) (elapsed : Nat) :
    ∃ after, (world.perform rules (.update index kept elapsed)).Holds handle
        (.zone index entity) after ∧ after.entity = agent.entity ∧ after.zone = agent.zone := by
  let others := (world.zones index).surroundings rules kept elapsed entity
  refine ⟨agent.turn rules others elapsed, ⟨hholds.1, ?_⟩, agent.turn_rooted hrules others elapsed⟩
  rw [← agent?, agent?_update, if_pos rfl, agent?, hholds.2, Option.map_some]

end Holds

/-- The agents of some handles are exactly where their zones have them, and the next move changes
exactly what it is about. -/
structure Exact (rules : Rules G) (everyone : Nat → Prop) (world : World G) : Prop where
  /-- An agent has a zone if it is registered in it, under its own entity. -/
  zone : ∀ handle spot agent, world.Holds handle spot agent → ∀ id, agent.zone = some id ↔
    ∃ index, spot = .zone index agent.entity ∧ (world.zones index).id = id
  own : ∀ handle index entity agent, world.Holds handle (.zone index entity) agent →
    agent.entity = entity
  /-- Every agent is outside, or registered in one zone once. -/
  place : ∀ handle, everyone handle → ∃! spot, ∃ agent, world.Holds handle spot agent
  /-- Nobody else is registered. -/
  known : ∀ index entity agent, (world.zones index).agents.get? entity = some agent →
    ∃ handle, everyone handle ∧ world.Holds handle (.zone index entity) agent
  added : ∀ index handle agent, world.Holds handle .outside agent →
    (world.perform rules (.add index handle)).Holds handle (.zone index agent.entity)
      { agent with zone := some (world.zones index).id }
  /-- An agent that is replaced is handed back, in no zone and else as it was. -/
  replaced : ∀ index handle agent other old, world.Holds handle .outside agent →
    world.Holds other (.zone index agent.entity) old →
      ((world.zones index).addAgent agent).value.1 = some { old with zone := none } ∧
        (world.perform rules (.add index handle)).Holds other .outside { old with zone := none }
  /-- So is an agent that is removed. -/
  removed : ∀ index entity handle agent, world.Holds handle (.zone index entity) agent →
    ((world.zones index).removeAgent entity).value.1 = some { agent with zone := none } ∧
      (world.perform rules (.remove index entity)).Holds handle .outside
        { agent with zone := none }
  /-- To remove an entity that is not registered answers nothing, reports nothing and changes
  nothing. -/
  missing : ∀ index entity, (world.zones index).agents.get? entity = none →
    (world.zones index).removeAgent entity = { value := (none, world.zones index) } ∧
      world.perform rules (.remove index entity) = world
  /-- An update leaves the agents of its zone where they are. -/
  updated : ∀ index kept elapsed handle entity agent,
    world.Holds handle (.zone index entity) agent →
      ∃ after, (world.perform rules (.update index kept elapsed)).Holds handle
          (.zone index entity) after ∧ after.entity = agent.entity ∧ after.zone = agent.zone
  /-- All other agents stay as they are. -/
  stays : ∀ move handle spot agent, world.Holds handle spot agent →
    ¬ move.Concerns world handle spot → (world.perform rules move).Holds handle spot agent

/-- The agents of an orderly world are where their zones have them. -/
theorem Orderly.exact {everyone : Nat → Prop} (hrules : rules.Rooted)
    (h : world.Orderly everyone) : world.Exact rules everyone where
  zone _ _ _ := h.zone_iff
  own _ _ _ _ hholds := (h.home hholds.2).1
  place _ := h.exists_unique_spot
  known _ _ _ := h.exists_handle
  added index _ _ hholds := hholds.added index
  replaced _ _ _ _ _ hholds hold := hholds.replaced hold
  removed _ _ _ _ hholds := hholds.removed
  missing _ _ := h.missing
  updated _ kept elapsed _ _ _ hholds := hholds.updated hrules kept elapsed
  stays _ _ _ _ := h.stays

/-- Whatever zones do with agents that were in none of them, and however agents are handed from one
to the other, every agent is in exactly one place and knows which. -/
theorem membership_exact (hrules : rules.Rooted) (ids : Nat → ZoneId)
    {agents : Nat → Option (Agent G)}
    (hagents : ∀ handle agent, agents handle = some agent → agent.zone = none)
    (moves : List Move) :
    ((World.start ids agents).performAll rules moves).Exact rules
      fun handle => (agents handle).isSome :=
  ((Orderly.start hagents ids).perform_all hrules moves).exact hrules

/-- Two agents of one entity. -/
def rivals : Nat → Option (Agent (Game.clocked Unit))
  | 0 => some (Agent.freshWith 5 soleTree)
  | 1 => some (Agent.freshWith 5 idleTree)
  | _ => none

/-- The second agent replaces the first one, which goes over to another zone. -/
theorem membership_exact_handover :
    let moves : List Move :=
      [.add 0 0, .update 0 (fun _ => false) 1, .add 0 1, .remove 1 5, .add 1 0]
    let world := (World.start ZoneId.mk rivals).performAll (Rules.clocked deadline) moves
    world.seats 0 5 = some 1 ∧ world.seats 1 5 = some 0 ∧
      (∃! spot, ∃ agent, world.Holds 0 spot agent) ∧
      ∀ agent, world.Holds 0 (.zone 1 5) agent → agent.zone = some ⟨1⟩ := by
  intro moves world
  have hrivals : ∀ handle agent, rivals handle = some agent → agent.zone = none
    | 0, _, rfl | 1, _, rfl => rfl
  have hexact := membership_exact (Rules.clocked_modest deadline).rooted ZoneId.mk hrivals moves
  refine ⟨by decide +kernel, by decide +kernel, hexact.place 0 rfl, fun agent hholds => ?_⟩
  have hentity : agent.entity = 5 := hexact.own 0 1 5 agent hholds
  exact (hexact.zone 0 _ agent hholds ⟨1⟩).2 ⟨1, by rw [hentity], by decide +kernel⟩

end World

end BehaviorTree
