import BehaviorTree.Agent.Update

/-!
# Zones

A zone ticks a set of agents together, in ascending order of their entities. An agent knows
the zone it is registered with, and forgets it when it leaves.
-/

namespace BehaviorTree

variable {G : Game}

/-- A set of agents that are ticked together. -/
structure Zone (G : Game) where
  id : ZoneId
  agents : Table (Agent G) := Table.empty
  /-- The number of completed updates. -/
  ticks : Nat := 0

namespace Zone

/-- A new zone without agents. -/
def fresh (id : ZoneId) : Zone G := { id }

def agentAdded (zone : Zone G) (entity : EntityId) : Diagnostic where
  severity := .debug
  message := "agent added"
  fields := [("zone", .text zone.id.text), ("entity", .number entity)]

def agentRemoved (zone : Zone G) (entity : EntityId) : Diagnostic where
  severity := .debug
  message := "agent removed"
  fields := [("zone", .text zone.id.text), ("entity", .number entity)]

/-- A finished update in which some agents were ticked. -/
def updated (zone : Zone G) (ticked : Nat) : Diagnostic where
  severity := .trace
  message := "zone tick"
  fields := [("zone", .text zone.id.text), ("tick", .number zone.ticks),
    ("ticked", .number ticked)]

/-- Registers an agent under its entity. The answer has the agent that it replaces, which
belongs to no zone any more. -/
def addAgent (zone : Zone G) (agent : Agent G) : Reported (Option (Agent G) × Zone G) where
  value :=
    ((zone.agents.get? agent.entity).map fun replaced => { replaced with zone := none },
      { zone with agents := zone.agents.insert agent.entity { agent with zone := some zone.id } })
  diagnostics := [zone.agentAdded agent.entity]

/-- Takes an agent out of the zone. -/
def removeAgent (zone : Zone G) (entity : EntityId) : Reported (Option (Agent G) × Zone G) :=
  match zone.agents.get? entity with
  | none => { value := (none, zone) }
  | some agent =>
      { value := (some { agent with zone := none },
          { zone with agents := zone.agents.erase entity })
        diagnostics := [zone.agentRemoved entity] }

/-- Whether a tree of one of the agents holds a node. -/
def anyOwns (agents : List (Nat × Agent G)) (id : NodeId) : Bool :=
  agents.any fun entry => entry.2.owns id

/-- What comes of updating agents one after the other: how many have been ticked, the agents
afterwards, and the notes of all ticks in order. -/
structure Round (G : Game) where
  ticked : Nat
  agents : List (Nat × Agent G)
  notes : List Note

/-- Updates the agents of a list that are not paused, in order, and counts each of them on top of
those that have been `ticked`. Others hold what `kept` says, the agents before (`earlier`) as they
are by now, and the agents still to come. -/
def updateAgents (rules : Rules G) (kept : NodeId → Bool) (elapsed ticked : Nat)
    (earlier : List (Nat × Agent G)) : List (Nat × Agent G) → Round G
  | [] => ⟨ticked, [], []⟩
  | (entity, agent) :: rest =>
      if agent.paused then
        let later := updateAgents rules kept elapsed ticked ((entity, agent) :: earlier) rest
        { later with agents := (entity, agent) :: later.agents }
      else
        let others := fun id => kept id || anyOwns earlier id || anyOwns rest id
        let outcome := Agent.update rules others elapsed agent
        let later :=
          updateAgents rules kept elapsed (ticked + 1) ((entity, outcome.agent) :: earlier) rest
        { later with
          agents := (entity, outcome.agent) :: later.agents
          notes := outcome.notes ++ later.notes }

/-- Updates leave every agent under its key. -/
theorem map_fst_update_agents (rules : Rules G) (kept : NodeId → Bool) (elapsed ticked : Nat)
    (earlier agents : List (Nat × Agent G)) :
    (updateAgents rules kept elapsed ticked earlier agents).agents.map Prod.fst =
      agents.map Prod.fst := by
  induction agents generalizing ticked earlier with
  | nil => rfl
  | cons head rest ih =>
      rw [updateAgents]
      split <;> simp [ih]

/-- What comes of updating a zone: how many agents were ticked, the zone afterwards, and the
notes of all ticks in order. -/
structure Updated (G : Game) where
  ticked : Nat
  zone : Zone G
  notes : List Note

/-- Updates every agent that is not paused. -/
def update (rules : Rules G) (kept : NodeId → Bool) (elapsed : Nat) (zone : Zone G) :
    Updated G :=
  let round := updateAgents rules kept elapsed 0 [] zone.agents.entries
  let agents : Table (Agent G) := ⟨round.agents, by
    have h := zone.agents.keys_ascending
    rw [Table.keys, ← map_fst_update_agents rules kept elapsed 0 []] at h
    simpa [Table.Ascending, List.pairwise_map] using h⟩
  let next : Zone G := { zone with agents, ticks := zone.ticks + 1 }
  ⟨round.ticked, next, round.notes ++ [.reported (next.updated round.ticked)]⟩

end Zone

end BehaviorTree
