/-!
# Statuses

The outcome of executing a node once. Read `Status.invert` first: inverting twice gives
back every outcome that an inverted execution can have (`Status.invert_invert`).
-/

namespace BehaviorTree

/-- The outcome of executing a node for one agent on one tick. -/
inductive Status where
  /-- Nothing has been executed yet. -/
  | unknown
  /-- The node's condition blocked it; its own logic did not run. -/
  | canNotExecute
  /-- The node needs more ticks. -/
  | running
  | finished
  | failed
  deriving DecidableEq, Inhabited, Repr

namespace Status

/-- Every status, in the order of declaration. -/
def all : List Status := [unknown, canNotExecute, running, finished, failed]

/-- The written name of a status. -/
def name : Status → String
  | unknown => "Unknown"
  | canNotExecute => "CanNotExecute"
  | running => "Running"
  | finished => "Finished"
  | failed => "Failed"

/-- The status of a written name. -/
def ofName? (text : String) : Option Status :=
  all.find? fun status => status.name == text

def isRunning (status : Status) : Bool := status == running

def isFinished (status : Status) : Bool := status == finished

def isFailed (status : Status) : Bool := status == failed

/-- Finished or failed. -/
def isTerminal (status : Status) : Bool := status.isFinished || status.isFailed

/-- Success and failure trade places, a running node stays running, and a blocked one
counts as a success. A node that never ran counts as a failure. -/
def invert : Status → Status
  | unknown => failed
  | canNotExecute => finished
  | running => running
  | finished => failed
  | failed => finished

/-- The written name of a status leads back to it. -/
theorem of_name?_name (status : Status) : ofName? status.name = some status := by
  cases status <;> rfl

/-- A status counts as running if it is that one. -/
@[simp] theorem is_running_iff {status : Status} : status.isRunning = true ↔ status = running := by
  simp [isRunning]

/-- A second inversion undoes the first on every outcome of a node that ran. -/
theorem invert_invert {status : Status}
    (h : status = running ∨ status = finished ∨ status = failed) :
    status.invert.invert = status := by
  rcases h with rfl | rfl | rfl <;> rfl

/-- Nothing but a running status is inverted to a running one. -/
@[simp] theorem invert_eq_running {status : Status} :
    status.invert = running ↔ status = running := by
  cases status <;> simp [invert]

/-- Of the outcomes of a node that ran, failure alone is inverted to success. -/
theorem invert_eq_finished {status : Status}
    (h : status = running ∨ status = finished ∨ status = failed) :
    status.invert = finished ↔ status = failed := by
  rcases h with rfl | rfl | rfl <;> simp [invert]

end Status

end BehaviorTree
