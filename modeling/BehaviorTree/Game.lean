/-!
# Games

The engine knows nothing of what leaves, conditions and filters do in a game. A game gives
them as symbols (`Game`); what the symbols mean is a separate matter (`Rules`), so a tree is
plain data that any number of agents share.
-/

namespace BehaviorTree

/-- The symbols that a game adds to the engine, and what its leaves and tests remember. -/
structure Game where
  /-- Logic of action leaves. -/
  Leaf : Type
  /-- Conditions. -/
  Test : Type
  /-- Filters of the selection. -/
  Sieve : Type
  /-- Kinds of values that the game keeps in an agent's context. -/
  Memory : Type
  [memoryEq : DecidableEq Memory]
  /-- The values of a kind. -/
  Recall : Memory → Type

instance (G : Game) : DecidableEq G.Memory := G.memoryEq

end BehaviorTree
