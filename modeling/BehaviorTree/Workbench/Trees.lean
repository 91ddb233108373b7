import BehaviorTree.Workbench.Basic

/-!
# Trees and parts at the workbench

Trees come from documents, from sketches and from parts; they stay under their names until
they are forgotten or replaced. Other holders of a forgotten tree keep it.
-/

namespace BehaviorTree.Work

variable {G : Game}

/-- Keeps a tree under a name. -/
def keepTree (name : String) (tree : Tree G) : Work G Unit :=
  modify fun bench => { bench with trees := bench.trees.put name tree }

/-- Loads a tree out of a text and keeps it under a name. -/
def load (name text : String) : Work G (Tree G) := do
  let tree ← build (Blueprint.load (← get).registry text)
  keepTree name tree
  return tree

/-- Loads a tree out of a file, if the file could be read, and keeps it under a name. -/
def loadFile (name : String) (content : Option String) : Work G (Tree G) := do
  let tree ← build (Blueprint.loadFile (← get).registry content)
  keepTree name tree
  return tree

/-- Makes a tree out of a sketch and keeps it under a name. -/
def sketchTree (name title : String) (sketch : NodeSketch G) :
    Work G (Except SketchError (Tree G)) := do
  let made ← draft (sketch.makeTree (← get).registry title)
  match made with
  | .ok tree => keepTree name tree
  | .error _ => pure ()
  return made

/-- Makes a tree without a child and keeps it under a name. -/
def emptyTree (name title : String) : Work G (Tree G) := do
  let tree := Tree.named (← issue) title
  keepTree name tree
  return tree

/-- Forgets the tree under a name and tells whether there was one. -/
def dropTree (name : String) : Work G Bool := do
  let bench ← get
  set { bench with trees := bench.trees.drop name }
  return (bench.trees.get? name).isSome

/-- Makes a condition out of a sketch, unless a part of it is unknown. -/
def sketchCondition (sketch : ConditionSketch) : Work G (Option (Condition G)) := do
  return (← draft (sketch.make (← get).registry)).toOption

/-- Makes a filter out of a sketch, unless it is unknown. -/
def sketchFilter (sketch : FilterSketch) : Work G (Option (Filter G)) := do
  return (← draft (sketch.make (← get).registry)).toOption

/-- Keeps a loose part under a name, if there is one. -/
def keepPart (name : String) (part : Option (Part G)) : Work G (Option (Part G)) := do
  modify fun bench => { bench with parts := bench.parts.put? name part }
  return part

/-- Makes a tree without a child into a part. -/
def treePart (name title : String) : Work G (Option (Part G)) := do
  keepPart name (some (.tree (Tree.named (← issue) title)))

/-- Makes a node of a registered type into a part. -/
def nodePart (name kind : String) (args : Arguments) : Work G (Option (Part G)) := do
  let node ← draft (NodeForm.make (← get).registry (.registered kind args))
  keepPart name (node.toOption.map .node)

/-- Makes a condition of a registered type into a part. -/
def conditionPart (name kind : String) (args : Arguments) : Work G (Option (Part G)) := do
  keepPart name ((← sketchCondition (.registered kind args)).map .condition)

/-- Makes a filter of a registered type into a part. -/
def filterPart (name kind : String) (args : Arguments) : Work G (Option (Part G)) := do
  keepPart name ((← sketchFilter ⟨kind, args⟩).map .filter)

/-- The part under a name. -/
def part? (name : String) : Work G (Option (Part G)) := do return (← get).parts.get? name

/-- Takes the part under a name off the bench. -/
def takePart (name : String) : Work G (Part G) := do
  let part ← require .part (← part? name)
  modify fun bench => { bench with parts := bench.parts.drop name }
  return part

/-- Puts one part into another. The first part is used up also if it does not fit; the other
one is then left as it was. -/
def attach (name target : String) : Work G Unit := do
  let part ← takePart name
  let other ← require .target (← part? target)
  match part.attach other with
  | .ok fitted =>
      let _ ← keepPart target (some fitted)
  | .error .wrongKinds => missing .target
  | .error (.refused error) => throw (.notAssembled error)

/-- Makes a loose tree one of the trees on the bench. -/
def publish (name title : String) : Work G (Tree G) := do
  match ← part? name with
  | some (.tree tree) =>
      let _ ← takePart name
      keepTree title tree
      return tree
  | _ => missing .part

/-- Puts a tree of the bench into the cache and tells whether it was taken. -/
def cacheTree (name : String) : Work G Bool := do
  let tree ← tree name
  let taken := (← get).cache.add tree
  modify fun bench => { bench with cache := taken.value.2 }
  report taken.diagnostics
  return taken.value.1

/-- Loads a tree out of a file into the cache and keeps it under a name as well. -/
def cacheFile (name : String) (content : Option String) : Work G (Tree G) := do
  let bench ← get
  let (tree, cache) ← build (bench.cache.loadFile bench.registry content)
  modify fun bench => { bench with cache }
  keepTree name tree
  return tree

/-- Takes a tree of the bench out of the cache, if it is there. -/
def uncacheTree (name : String) : Work G (Option (Tree G)) := do
  let tree ← tree name
  let removed := (← get).cache.remove tree
  modify fun bench => { bench with cache := removed.value.2 }
  report removed.diagnostics
  return removed.value.1

/-- Takes the tree of a name out of the cache, if it is there. -/
def evict (name : String) : Work G (Option (Tree G)) := do
  let removed := (← get).cache.removeByName name
  modify fun bench => { bench with cache := removed.value.2 }
  report removed.diagnostics
  return removed.value.1

/-- The names under which the bench keeps a tree, ascending. -/
def namesOf (tree : Tree G) : Work G (List String) := do
  let names := (← get).trees.entries.filterMap fun (name, other) =>
    if other.id = tree.id then some name else none
  return names.mergeSort fun a b => a ≤ b

end BehaviorTree.Work
