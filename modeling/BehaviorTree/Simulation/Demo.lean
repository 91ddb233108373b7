import BehaviorTree.Agent.Evaluate
import BehaviorTree.Inspect
import BehaviorTree.Registry

/-!
# Demonstration parts

A few leaves and a filter with which trees can be tried out without a game: a leaf that says
something, one that idles, and a filter that selects fixed entities.
-/

namespace BehaviorTree.Demo

variable {G : Game}

/-- Demonstration leaves. -/
inductive Leaf where
  /-- Says a message and finishes. -/
  | log (message : String)
  /-- Runs forever. -/
  | idle
  deriving DecidableEq, Repr

/-- Demonstration filters. -/
inductive Sieve where
  /-- Selects the given entities. -/
  | select (entities : List EntityId)
  deriving DecidableEq, Repr

/-- How a game embeds the demonstration parts. -/
structure Words (G : Game) where
  leaf : Leaf → G.Leaf
  sieve : Sieve → G.Sieve

/-- What a leaf says. -/
def said (agent : Agent G) (node : NodeId) (message : String) : Diagnostic where
  severity := .info
  message := message
  fields := [("entity", .number agent.entity), ("node", .text node.text),
    ("selection", .text (showNumbers agent.selection))]

/-- What demonstration leaves do. -/
def act (node : NodeId) : Leaf → Play G Status
  | .log message => do
      let agent ← Play.look id
      Play.report (said agent node message)
      return .finished
  | .idle => pure .running

/-- What demonstration filters do. -/
def sift : Sieve → Play G Unit
  | .select entities => Play.change fun agent => agent.select fun _ => entities

/-- The factories of the demonstration parts. -/
def entries (words : Words G) : List (Registry.Entry G) := [
  .node "Log" (Registry.single fun args head =>
    .action head "Log" false (words.leaf (.log (" ".intercalate args.texts)))),
  .node "Idle" (Registry.single fun args head =>
    .action head "Idle" (args.flag 0) (words.leaf .idle)),
  .filter "Select" fun args => .game "Select" (words.sieve (.select (args.counts 64)))]

/-- Registers the demonstration parts. -/
def register (words : Words G) (registry : Registry G) : Reported (Registry G) :=
  registry.registerAll (entries words)

/-- A game of nothing but demonstration parts. -/
def game : Game where
  Leaf := Leaf
  Test := Empty
  Sieve := Sieve
  Memory := Empty
  Recall := fun memory => nomatch memory

/-- The demonstration parts as they are. -/
def words : Words game := ⟨id, id⟩

/-- The meaning of the demonstration parts. -/
def rules : Rules game where
  enter _ _ := pure ()
  act leaf node _ := act node leaf
  test test _ := nomatch test
  sift sieve := sift sieve

/-- The registry of built-in and demonstration parts. -/
def registry : Registry game := (register words Registry.builtins).value

end BehaviorTree.Demo
