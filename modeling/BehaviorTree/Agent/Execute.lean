import BehaviorTree.Agent.Evaluate

/-!
# Execution of a node

`Node.execute` executes a node once for an agent. Every kind of node goes through the same
visit (`Node.visit`): a fresh entry sets the node's own continuation up, the gate decides
whether the node runs, and the result becomes the node's last status. Leaves go through
`Node.visitLeaf` first, where a result that was reached outside the tree is claimed.

All recursion is on the tree.
-/

namespace BehaviorTree

variable {G : Game}

namespace Node

/-- A decorator that nothing was attached to. -/
def childless (node : Node G) : Diagnostic where
  severity := .warn
  message := "decorator executed without a child"
  fields := [("node", .text node.id.text), ("kind", .text node.typeName)]

/-- Stores, records and notes a node's result. -/
def conclude (node : Node G) (status : Status) : Play G Status := do
  Play.change fun agent => agent.settle node.id status
  Play.note (.executed node.id status)
  return status

/-- One visit to a node. If its last status is not running, `fresh` sets it up; if its gate
is open, `run` gives its result; `after` follows the result up, also that of a closed gate. -/
def visit (rules : Rules G) (node : Node G) (fresh : Play G Unit) (run : Play G Status)
    (after : Status → Play G Unit) : Play G Status := do
  let last ← Play.look fun agent => agent.statusOf node.id
  if last.isRunning then pure () else fresh
  let isOpen ← node.open rules
  if isOpen then
    let status ← run
    after status
    node.conclude status
  else
    Play.change fun agent => if node.family = .action then agent.release node.id else agent
    node.conclude .canNotExecute

/-- One visit to a composite or decorator. -/
def visitInner (rules : Rules G) (node : Node G) (fresh : Play G Unit) (run : Play G Status) :
    Play G Status :=
  node.visit rules fresh run fun _ => pure ()

/-- One visit to a leaf. A result that waits for the leaf is handed over without running it;
otherwise a running leaf becomes the current action, and a finished or failed one stops
being it. -/
def visitLeaf (rules : Rules G) (kept : NodeId → Bool) (node : Node G) (fresh : Play G Unit)
    (run : Play G Status) : Play G Status := do
  let waiting ← Play.look fun agent => agent.takeCompleted node.id
  match waiting with
  | some (status, claimed) =>
      Play.change fun _ => claimed
      node.conclude status
  | none =>
      node.visit rules
        (do fresh; Play.note (.entered node.id))
        (do
          let status ← run
          Play.note (.acted node.id status)
          return status)
        fun status => Play.change fun agent => agent.follow kept node status

/-- One tick of a countdown: the first arms it, later ones use the elapsed time up. -/
def tickTimer (duration elapsed : Nat) (timer : Timer) : Timer :=
  let next : Timer := match timer.phase with
    | .start => ⟨.running, duration⟩
    | .running => ⟨.running, timer.remaining - elapsed⟩
    | .expired => timer
  if next.phase = .running ∧ next.remaining = 0 then ⟨.expired, next.remaining⟩ else next

/-- Runs a timed leaf. -/
def runTimed (id : NodeId) (duration elapsed : Nat) : Play G Status := do
  let timer ← Play.look fun agent => tickTimer duration elapsed (agent.timerOf id)
  Play.change fun agent => agent.remember .timer id.raw timer
  return if timer.phase = .expired then .finished else .running

/-- What a composite sets up on a fresh entry: a parallel has no position to resume from. -/
def enterComposite (id : NodeId) : CompositeKind → Play G Unit
  | .sequence | .priority => Play.change fun agent => agent.remember .resumeIndex id.raw (0 : Nat)
  | .parallel => pure ()

/-- Keeps the position of the child that a walk stopped at, or drops the position when the
walk went through. -/
def settleWalk (id : NodeId) (exhausted : Status) : Option (Nat × Status) → Play G Status
  | some (index, status) => do
      Play.change fun agent => agent.remember .resumeIndex id.raw index
      return status
  | none => do
      Play.change fun agent => agent.forget .resumeIndex id.raw
      return exhausted

/-- The result of a decorator whose child came out with a status. -/
def reshape : DecoratorKind → Status → Status
  | .inverter, status => status.invert
  | .succeed, status => if status = .running then .running else .finished
  | .fail, status => if status = .running then .running else .failed
  | .repeater, _ => .running
  | .limit _, status => if status = .running then .running else .failed
  | .untilFail, status => if status = .failed then .finished else .running
  | .untilSuccess, status => if status = .finished then .finished else .running
  | .root _, status => status

/-- Whether a decorator leaves its child alone: a limit does once it is used up. -/
def spent (id : NodeId) : DecoratorKind → Play G Bool
  | .limit bound => Play.look fun agent => decide (bound ≤ agent.execCountOf id)
  | .inverter | .succeed | .fail | .repeater | .untilFail | .untilSuccess | .root _ => pure false

/-- What a decorator counts once its child was executed. -/
def countChild (id : NodeId) : DecoratorKind → Play G Unit
  | .limit _ => Play.change fun agent =>
      agent.remember .execCount id.raw (agent.execCountOf id + 1 : Nat)
  | .inverter | .succeed | .fail | .repeater | .untilFail | .untilSuccess | .root _ => pure ()

/-- The result of a decorator, `tick` executing its child if it has one. -/
def runDecorator (node : Node G) (kind : DecoratorKind) (tick : Play G (Option Status)) :
    Play G Status := do
  let isSpent ← spent node.id kind
  if isSpent then return .finished
  else
    let result ← tick
    match result with
    | none =>
        Play.report node.childless
        return .failed
    | some status =>
        countChild node.id kind
        return reshape kind status

mutual

/-- Executes a node once for an agent. `kept` tells which nodes others have in use. -/
def execute (rules : Rules G) (kept : NodeId → Bool) (elapsed : Nat) : Node G → Play G Status
  | node@(composite head .sequence children) =>
      node.visitInner rules (enterComposite head.id .sequence) (do
        let start ← Play.look fun agent => agent.resumeIndexOf head.id
        let stop ← walk rules kept elapsed .finished start 0 children
        settleWalk head.id .finished stop)
  | node@(composite head .priority children) =>
      node.visitInner rules (enterComposite head.id .priority) (do
        let start ← Play.look fun agent => agent.resumeIndexOf head.id
        let stop ← walk rules kept elapsed .failed start 0 children
        settleWalk head.id .failed stop)
  | node@(composite head .parallel children) =>
      node.visitInner rules (enterComposite head.id .parallel) (do
        let running ← executeAll rules kept elapsed children
        return if running then .running else .finished)
  | node@(decorator _ kind child) =>
      node.visitInner rules (pure ())
        (runDecorator node kind (executeChild rules kept elapsed child))
  | node@(timed head duration _) =>
      node.visitLeaf rules kept
        (Play.change fun agent => agent.remember .timer head.id.raw Timer.unarmed)
        (runTimed head.id duration elapsed)
  | node@(action head _ _ leaf) =>
      node.visitLeaf rules kept (rules.enter leaf head.id) (rules.act leaf head.id elapsed)

/-- Executes children in order, passing over the first `skip`, as long as they come out with
`advance`. The answer is the position and status of the child that stopped the walk. -/
def walk (rules : Rules G) (kept : NodeId → Bool) (elapsed : Nat) (advance : Status) :
    Nat → Nat → List (Node G) → Play G (Option (Nat × Status))
  | _, _, [] => pure none
  | skip + 1, index, _ :: rest => walk rules kept elapsed advance skip (index + 1) rest
  | 0, index, child :: rest => do
      let status ← execute rules kept elapsed child
      if status = advance then walk rules kept elapsed advance 0 (index + 1) rest
      else return some (index, status)

/-- Executes every node of a list and tells whether one of them is running. -/
def executeAll (rules : Rules G) (kept : NodeId → Bool) (elapsed : Nat) :
    List (Node G) → Play G Bool
  | [] => pure false
  | child :: rest => do
      let status ← execute rules kept elapsed child
      let running ← executeAll rules kept elapsed rest
      return status.isRunning || running

/-- Executes the child of a decorator, if there is one. -/
def executeChild (rules : Rules G) (kept : NodeId → Bool) (elapsed : Nat) :
    Option (Node G) → Play G (Option Status)
  | none => pure none
  | some child => do
      let status ← execute rules kept elapsed child
      return some status

end

end Node

end BehaviorTree
