import BehaviorTree.Store
import BehaviorTree.Trace
import BehaviorTree.Tree.Node

/-!
# Agents

An agent runs a shared tree. Everything that changes from tick to tick is here and not in
the tree: the agent's status, its selection, and its context, the store of what it has to
remember about nodes.

An agent refers to its current action without owning it: the action counts only as long as
some tree that is still in use holds it. Which nodes others hold is the argument `kept` of
the functions that ask.
-/

namespace BehaviorTree

variable {G : Game}

/-- The phases of a countdown. -/
inductive TimerPhase where
  | start
  | running
  | expired
  deriving DecidableEq, Repr

/-- The written name of a phase. -/
def TimerPhase.name : TimerPhase → String
  | start => "Start"
  | running => "Running"
  | expired => "Expired"

/-- The countdown of a timed leaf, in nanoseconds. -/
structure Timer where
  phase : TimerPhase
  remaining : Nat
  deriving DecidableEq, Repr

/-- A countdown that has not been armed. -/
def Timer.unarmed : Timer := ⟨.start, 0⟩

/-- The kinds of values in a context. -/
inductive Slot (G : Game) where
  /-- The position of the child that a sequence or priority resumes from. -/
  | resumeIndex
  /-- How often a limit has executed its child. -/
  | execCount
  | timer
  /-- The last status of a node. -/
  | status
  /-- The action an agent is busy with, under the agent's entity. -/
  | currentAction
  /-- The result of a must-complete action that ended outside the tree. -/
  | completed
  /-- A kind of the game. -/
  | game (memory : G.Memory)
  deriving DecidableEq

/-- The values of a kind. -/
def Slot.Value : Slot G → Type
  | resumeIndex | execCount => Nat
  | timer => Timer
  | status | completed => Status
  | currentAction => Node G
  | game memory => G.Recall memory

/-- What an agent remembers, by kind of value and by node. -/
abbrev Context (G : Game) := Store (Slot G) Slot.Value

/-- One character driven by a behavior tree. -/
structure Agent (G : Game) where
  entity : EntityId
  behavior : Option (Tree G) := none
  context : Context G := Store.empty
  /-- The top-level status of the last update. -/
  status : Status := .unknown
  /-- The entities under consideration, in the order left by filters. -/
  selection : List EntityId := []
  paused : Bool := false
  /-- The zone the agent is registered with. -/
  zone : Option ZoneId := none
  /-- The number of updates that executed something. -/
  ticks : Nat := 0
  /-- The recorded executions, if the agent is traced. -/
  trace : Option TraceLog := none

namespace Agent

/-- The stored status of a node; unknown if it was never executed. -/
def statusOf (agent : Agent G) (id : NodeId) : Status :=
  agent.context.getD .status id.raw Status.unknown

/-- The position a sequence or priority resumes from. -/
def resumeIndexOf (agent : Agent G) (id : NodeId) : Nat :=
  agent.context.getD .resumeIndex id.raw (0 : Nat)

/-- How often a limit has executed its child. -/
def execCountOf (agent : Agent G) (id : NodeId) : Nat :=
  agent.context.getD .execCount id.raw (0 : Nat)

/-- The countdown of a timed leaf. -/
def timerOf (agent : Agent G) (id : NodeId) : Timer :=
  agent.context.getD .timer id.raw Timer.unarmed

/-- The action that the agent last held, alive or not. -/
def heldAction? (agent : Agent G) : Option (Node G) :=
  agent.context.get? .currentAction agent.entity

/-- Whether the agent's own tree holds a node. -/
def owns (agent : Agent G) (id : NodeId) : Bool :=
  agent.behavior.any fun tree => tree.contains id

/-- Whether a node is in use, by others or by the agent itself. -/
def alive (kept : NodeId → Bool) (agent : Agent G) (id : NodeId) : Bool := kept id || agent.owns id

/-- The action the agent is busy with, if it is still alive. -/
def currentAction? (kept : NodeId → Bool) (agent : Agent G) : Option (Node G) :=
  agent.heldAction?.filter fun node => agent.alive kept node.id

/-- The live must-complete action that the agent has to finish first. -/
def pressingAction? (kept : NodeId → Bool) (agent : Agent G) : Option (Node G) :=
  (agent.currentAction? kept).filter Node.mustComplete

/-- Writes a context entry. -/
def remember (agent : Agent G) (slot : Slot G) (key : Nat) (value : slot.Value) : Agent G :=
  { agent with context := agent.context.set slot key value }

/-- Removes a context entry. -/
def forget (agent : Agent G) (slot : Slot G) (key : Nat) : Agent G :=
  { agent with context := agent.context.remove slot key }

/-- Starts recording executions; a recording that is on goes on. -/
def enableTrace (agent : Agent G) : Agent G :=
  { agent with trace := some (agent.trace.getD TraceLog.empty) }

/-- Adds an execution to the recording, if there is one. -/
def record (agent : Agent G) (id : NodeId) (status : Status) : Agent G :=
  { agent with trace := agent.trace.map fun log => log.push ⟨agent.ticks, id, status⟩ }

/-- Stores a node's result as its last status and records it. -/
def settle (agent : Agent G) (id : NodeId) (status : Status) : Agent G :=
  (agent.remember .status id.raw status).record id status

/-- Makes an action the current one, unless another live must-complete action is. -/
def hold (kept : NodeId → Bool) (agent : Agent G) (action : Node G) : Agent G :=
  match agent.heldAction? with
  | some held =>
      if held.id ≠ action.id ∧ held.mustComplete ∧ agent.alive kept held.id then agent
      else agent.remember .currentAction agent.entity action
  | none => agent.remember .currentAction agent.entity action

/-- Drops the current action if it is the given one. -/
def release (agent : Agent G) (id : NodeId) : Agent G :=
  match agent.heldAction? with
  | some held => if held.id = id then agent.forget .currentAction agent.entity else agent
  | none => agent

/-- The result that waits for an action, and the agent without it. -/
def takeCompleted (agent : Agent G) (id : NodeId) : Option (Status × Agent G) :=
  (agent.context.get? .completed id.raw).map fun status => (status, agent.forget .completed id.raw)

/-- What an action's result does to the current action: a running action is held, a
finished or failed one is released. -/
def follow (kept : NodeId → Bool) (agent : Agent G) (action : Node G) : Status → Agent G
  | .running => agent.hold kept action
  | .finished | .failed => agent.release action.id
  | .unknown | .canNotExecute => agent

end Agent

end BehaviorTree
