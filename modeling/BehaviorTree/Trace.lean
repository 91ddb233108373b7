import BehaviorTree.Status
import BehaviorTree.Identity

/-!
# Traces

A record of executions, oldest first.
-/

namespace BehaviorTree

/-- One execution of a node, stamped with the agent's tick. -/
structure TraceEvent where
  tick : Nat
  node : NodeId
  status : Status
  deriving DecidableEq, Repr

/-- The executions recorded for one agent, oldest first. -/
structure TraceLog where
  events : List TraceEvent
  deriving DecidableEq, Repr

namespace TraceLog

def empty : TraceLog := ⟨[]⟩

instance : Inhabited TraceLog := ⟨empty⟩

/-- Records one more execution. -/
def push (log : TraceLog) (event : TraceEvent) : TraceLog := ⟨log.events ++ [event]⟩

def size (log : TraceLog) : Nat := log.events.length

/-- The executions of one tick, in order. -/
def atTick (log : TraceLog) (tick : Nat) : List TraceEvent :=
  log.events.filter fun event => event.tick == tick

/-- The status of the latest execution of a node. -/
def lastStatus? (log : TraceLog) (node : NodeId) : Option Status :=
  (log.events.reverse.find? fun event => event.node == node).map TraceEvent.status

/-- What is recorded stands behind what was recorded before. -/
@[simp] theorem events_push (log : TraceLog) (event : TraceEvent) :
    (log.push event).events = log.events ++ [event] := rfl

/-- Nothing was executed according to an empty recording. -/
@[simp] theorem last_status?_empty (node : NodeId) : empty.lastStatus? node = none := rfl

/-- A new record decides for its own node and for no other. -/
theorem last_status?_push (log : TraceLog) (event : TraceEvent) (node : NodeId) :
    (log.push event).lastStatus? node =
      if event.node = node then some event.status else log.lastStatus? node := by
  simp only [lastStatus?, events_push, List.reverse_append, List.reverse_cons, List.reverse_nil,
    List.nil_append, List.singleton_append, List.find?_cons]
  by_cases h : event.node = node
  · simp [h]
  · simp [h, beq_eq_false_iff_ne.2 h]

end TraceLog

end BehaviorTree
