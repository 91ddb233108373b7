import BehaviorTree.Blueprint.Build

/-!
# The cache of trees

Loaded trees by name, so each document is made into a tree once and the tree is shared by
all agents that run it. The first tree of a name stays until it is removed. Trees are told
apart by the identity of their top, not by name or shape.
-/

namespace BehaviorTree

variable {G : Game}

/-- The trees that are cached, in the order in which they came. -/
structure Cache (G : Game) where
  trees : List (Tree G) := []

namespace Cache

def empty : Cache G := {}

/-- The tree cached under a name. -/
def get? (cache : Cache G) (name : String) : Option (Tree G) :=
  cache.trees.find? fun tree => tree.name == name

def contains (cache : Cache G) (name : String) : Bool := (cache.get? name).isSome

/-- A tree that was refused. -/
def alreadyCached (tree : Tree G) : Diagnostic where
  severity := .warn
  message := "behavior already cached"
  fields := [("tree", .text tree.name)]

/-- A tree that was taken. -/
def cached (tree : Tree G) : Diagnostic where
  severity := .debug
  message := "behavior cached"
  fields := [("tree", .text tree.name)]

/-- A tree that was removed. -/
def evicted (name : String) : Diagnostic where
  severity := .debug
  message := "behavior evicted"
  fields := [("tree", .text name)]

/-- Stores a tree under its name unless the name is taken, and tells whether it did. -/
def add (cache : Cache G) (tree : Tree G) : Reported (Bool × Cache G) :=
  if cache.contains tree.name then { value := (false, cache), diagnostics := [alreadyCached tree] }
  else { value := (true, ⟨cache.trees ++ [tree]⟩), diagnostics := [cached tree] }

/-- Removes the tree of a name. -/
def removeByName (cache : Cache G) (name : String) : Reported (Option (Tree G) × Cache G) :=
  match cache.get? name with
  | none => { value := (none, cache) }
  | some tree =>
      { value := (some tree, ⟨cache.trees.filter fun other => other.name ≠ name⟩)
        diagnostics := [evicted name] }

/-- Removes a tree if it, and not another one, is cached under its name. -/
def remove (cache : Cache G) (tree : Tree G) : Reported (Option (Tree G) × Cache G) :=
  match cache.get? tree.name with
  | none => { value := (none, cache) }
  | some other =>
      if other.id = tree.id then cache.removeByName tree.name else { value := (none, cache) }

/-- The number of cached trees. -/
def size (cache : Cache G) : Nat := cache.trees.length

/-- The names of the cached trees, ascending by code points. -/
def names (cache : Cache G) : List String :=
  (cache.trees.map Tree.name).mergeSort fun a b => a ≤ b

/-- Makes the tree that a file describes and caches it. The answer has the cache afterwards;
a name that is taken is an error. -/
def loadFile (cache : Cache G) (registry : Registry G) (content : Option String) :
    Build (Tree G × Cache G) := do
  let tree ← Blueprint.loadFile registry content
  let taken := cache.add tree
  taken.diagnostics.forM fun diagnostic => Build.note (.reported diagnostic)
  if taken.value.1 then return (tree, taken.value.2) else throw (.duplicateTree tree.name)

/-- Whether a cached tree holds a node. -/
def holds (cache : Cache G) (id : NodeId) : Bool := cache.trees.any fun tree => tree.contains id

end Cache

end BehaviorTree
