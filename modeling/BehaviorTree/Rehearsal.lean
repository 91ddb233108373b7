import BehaviorTree.Simulation.Demo

/-!
# Rehearsals

Stand-ins for the leaves, conditions and filters of a game, with which a tree is rehearsed
before the game is there: leaves that follow a script of statuses, conditions that look at
nothing but the agent, and parts that echo. They count in the agent's context how often they
were entered, run and asked.
-/

namespace BehaviorTree.Rehearsal

/-- Leaves. -/
inductive Leaf where
  /-- A demonstration leaf. -/
  | demo (leaf : Demo.Leaf)
  /-- Comes out the same every time. -/
  | constant (status : Status)
  /-- Comes out by turns as the script says; `restarts` starts the script over on every
  fresh entry. -/
  | script (statuses : List Status) (restarts : Bool)
  /-- Adds entities to the selection. -/
  | push (entities : List EntityId)
  /-- Pauses the agent. -/
  | pause
  /-- Takes the agent's tree away. -/
  | leave
  /-- Does nothing. -/
  | echo
  deriving DecidableEq, Repr

/-- Conditions. -/
inductive Test where
  /-- The selection has at least so many entries. -/
  | selected (least : Nat)
  /-- The gated node is of a type. -/
  | onType (name : String)
  /-- The number of ticks leaves a remainder. -/
  | tick (modulus remainder : Nat)
  /-- Counts the question and answers the same every time. -/
  | probe (answer : Bool)
  /-- Always holds. -/
  | echo
  deriving DecidableEq, Repr

/-- Filters. -/
inductive Sieve where
  /-- A demonstration filter. -/
  | demo (sieve : Demo.Sieve)
  /-- Adds entities to the selection. -/
  | add (entities : List EntityId)
  /-- Does nothing. -/
  | echo
  deriving DecidableEq, Repr

/-- What is counted, each under the identity of a node. -/
inductive Tally where
  /-- The runs of a scripted leaf since its script was started. -/
  | calls
  /-- The fresh entries of a scripted leaf. -/
  | entries
  /-- The questions to the probe at a node. -/
  | hits
  deriving DecidableEq, Repr

/-- The game that is rehearsed. -/
def game : Game where
  Leaf := Leaf
  Test := Test
  Sieve := Sieve
  Memory := Tally
  Recall := fun _ => Nat

/-- A count, if anything was counted. -/
def tally? (agent : Agent game) (tally : Tally) (node : NodeId) : Option Nat :=
  agent.context.get? (.game tally) node.raw

/-- A count. -/
def tally (agent : Agent game) (tally : Tally) (node : NodeId) : Nat :=
  (tally? agent tally node).getD 0

/-- Sets a count. -/
def setTally (agent : Agent game) (tally : Tally) (node : NodeId) (count : Nat) : Agent game :=
  agent.remember (.game tally) node.raw count

/-- Counts one more. -/
def countOne (tally : Tally) (node : NodeId) : Play game Unit :=
  Play.change fun agent => setTally agent tally node (Rehearsal.tally agent tally node + 1)

/-- Adds entities to the selection. -/
def addSelected (entities : List EntityId) : Play game Unit :=
  Play.change fun agent => agent.select (· ++ entities)

/-- The status that a script gives on a run, the first run being number zero. A script
without statuses finishes. -/
def scripted (statuses : List Status) (run : Nat) : Status :=
  (statuses[run % statuses.length]?).getD .finished

/-- What a leaf does on a fresh entry. -/
def enter (leaf : Leaf) (node : NodeId) : Play game Unit :=
  match leaf with
  | .script _ restarts => do
      countOne .entries node
      if restarts then Play.change fun agent => setTally agent .calls node 0
  | .demo _ | .constant _ | .push _ | .pause | .leave | .echo => pure ()

/-- What a leaf does on a tick. -/
def act (leaf : Leaf) (node : NodeId) : Play game Status :=
  match leaf with
  | .demo leaf => Demo.act node leaf
  | .constant status => pure status
  | .script statuses _ => do
      let status ← Play.look fun agent => scripted statuses (tally agent .calls node)
      countOne .calls node
      return status
  | .push entities => do
      addSelected entities
      return .finished
  | .pause => do
      Play.change fun agent => { agent with paused := true }
      return .finished
  | .leave => do
      let _ ← Agent.takeBehavior
      return .finished
  | .echo => pure .finished

/-- Whether a condition holds for the node that it gates. -/
def test (test : Test) (node : Node game) : Play game Bool :=
  match test with
  | .selected least => Play.look fun agent => decide (least ≤ agent.selection.length)
  | .onType name => pure (node.typeName == name)
  | .tick modulus remainder =>
      Play.look fun agent => decide (modulus ≠ 0 ∧ agent.ticks % modulus = remainder)
  | .probe answer => do
      countOne .hits node.id
      return answer
  | .echo => pure true

/-- What a filter does. -/
def sift : Sieve → Play game Unit
  | .demo sieve => Demo.sift sieve
  | .add entities => addSelected entities
  | .echo => pure ()

/-- The meaning of the stand-ins. -/
def rules : Rules game where
  enter := enter
  act leaf node _ := act leaf node
  test := test
  sift := sift

/-- The demonstration parts among the stand-ins. -/
def demoWords : Demo.Words game := ⟨.demo, .demo⟩

/-- The status of a name or of its letter. Any other text stands for finished. -/
def statusOf : String → Status
  | "U" => .unknown
  | "C" => .canNotExecute
  | "R" => .running
  | "F" => .finished
  | "X" => .failed
  | name => (Status.ofName? name).getD .finished

/-- A leaf out of the arguments whether it must complete, and the statuses of its script. -/
def scriptFactory (name : String) (restarts : Bool) : NodeFactory game :=
  Registry.single fun args head =>
    .action head name (args.flag 0) (.script ((args.texts.drop 1).map statusOf) restarts)

/-- The factories of the stand-ins, apart from the demonstration parts. -/
def entries : List (Registry.Entry game) := [
  .node "Script" (scriptFactory "Script" false),
  .node "Reset" (scriptFactory "Reset" true),
  .node "Push" (Registry.single fun args head =>
    .action head "Push" false (.push (args.counts 64))),
  .node "Pause" (Registry.single fun _ head => .action head "Pause" false .pause),
  .node "Leave" (Registry.single fun _ head => .action head "Leave" false .leave),
  .node "Echo" (Registry.single fun _ head => .action head "Echo" false .echo),
  .condition "SelMin" fun args => .game "SelMin" (.selected (args.count 64 0)),
  .condition "OnType" fun args => .game "OnType" (.onType (args.text 0)),
  .condition "TickMod" fun args => .game "TickMod" (.tick (args.count 64 0) (args.count 64 1)),
  .condition "Probe" fun args => .game "Probe" (.probe (args.flag 0)),
  .condition "Echo" fun _ => .game "Echo" .echo,
  .filter "Add" fun args => .game "Add" (.add (args.counts 64)),
  .filter "Echo" fun _ => .game "Echo" .echo]

/-- A factory that fills a name: of leaves that fail, of conditions that hold, or of filters
that keep as many entries as there are arguments. -/
def filler (family : Family) (name : String) : Registry.Entry game :=
  match family with
  | .node => .node name (Registry.single fun _ head =>
      .action head "Action" false (.constant .failed))
  | .condition => .condition name fun _ => .always
  | .filter => .filter name fun args => .first args.size

/-- The registry of built-in parts, demonstration parts and stand-ins. -/
def registry : Registry game :=
  (((Demo.register demoWords Registry.builtins).value).registerAll entries).value

end BehaviorTree.Rehearsal
