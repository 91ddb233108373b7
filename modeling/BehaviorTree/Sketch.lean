import BehaviorTree.Blueprint.Build

/-!
# Sketches of trees

A sketch is a tree written down in code. Its parts are of the built-in kinds or made through
a registry, and a node that was given a label can be used again, as the very same node. Parts
are made from the leaves up: children in order, then their node, and the top of the tree
last.
-/

namespace BehaviorTree

variable {G : Game}

/-- A filter, by the name of its type. -/
structure FilterSketch where
  kind : String
  args : Arguments := ⟨[]⟩

/-- A condition. -/
inductive ConditionSketch where
  | always
  | never
  | conjunction (conditions : List ConditionSketch)
  | disjunction (conditions : List ConditionSketch)
  | negation (inner : Option ConditionSketch)
  | selection (filter : Option FilterSketch)
  /-- A condition by the name of its type. -/
  | registered (kind : String) (args : Arguments)

/-- What a single node is. -/
inductive NodeForm (G : Game) where
  | composite (kind : CompositeKind)
  | decorator (kind : DecoratorKind)
  | timed (duration : Nat) (mustComplete : Bool)
  | action (name : String) (mustComplete : Bool) (leaf : G.Leaf)
  /-- A node by the name of its type. -/
  | registered (kind : String) (args : Arguments)

/-- A node with everything below it. -/
inductive NodeSketch (G : Game) where
  | made (form : NodeForm G) (gate : Option ConditionSketch) (label : Option String)
      (children : List (NodeSketch G))
  /-- A number of nodes of one form, each the only child of the one before. -/
  | chain (form : NodeForm G) (length : Nat) (inner : NodeSketch G)
  /-- The node that was given a label. -/
  | again (label : String)

instance : Inhabited ConditionSketch := ⟨.always⟩

instance : Inhabited (NodeSketch G) := ⟨.again ""⟩

/-- Why a sketch cannot be made into a tree. -/
inductive SketchError where
  /-- A part is of a type that is not registered. -/
  | unknownPart (kind : String)
  /-- No node has the label. -/
  | unknownLabel (label : String)
  | malformedTree (error : AssemblyError)
  deriving DecidableEq, Repr

/-- The state of making parts of a sketch: the workshop, and the nodes that have labels. -/
structure Drafting (G : Game) where
  shop : Workshop
  labelled : List (String × Node G) := []

/-- Making parts of a sketch, which may fail. -/
abbrev Draft (G : Game) (α : Type) := ExceptT SketchError (StateM (Drafting G)) α

namespace Draft

/-- Takes a part that a registry made, or fails for want of it. -/
def made {α : Type} (family : Family) (kind : String) (args : Arguments) :
    Option α → Draft G α
  | some part => do
      modify fun state =>
        { state with shop := { state.shop with
            notes := state.shop.notes.push (.made family kind args) } }
      return part
  | none => throw (.unknownPart kind)

/-- An operation of assembly as a step of a draft. -/
def assemble {α : Type} : Except AssemblyError α → Draft G α
  | .ok value => pure value
  | .error error => throw (.malformedTree error)

/-- Sets the supply of identities. -/
def setSupply (supply : Supply) : Draft G Unit :=
  modify fun state => { state with shop := { state.shop with supply } }

/-- Issues an identity. -/
def issue : Draft G NodeId := do
  let (id, supply) := (← get).shop.supply.issue
  setSupply supply
  return id

/-- Gives a node a label, if one is wanted. -/
def label (node : Node G) : Option String → Draft G Unit
  | none => pure ()
  | some name => modify fun state => { state with labelled := (name, node) :: state.labelled }

/-- Runs a draft in a workshop. -/
def run {α : Type} (draft : Draft G α) (shop : Workshop) : Except SketchError α × Workshop :=
  let (result, state) := (ExceptT.run draft).run { shop }
  (result, state.shop)

end Draft

/-- Makes a filter through a registry. -/
def FilterSketch.make (registry : Registry G) (sketch : FilterSketch) : Draft G (Filter G) :=
  Draft.made .filter sketch.kind sketch.args (registry.createFilter? sketch.kind sketch.args)

namespace ConditionSketch

mutual

/-- Makes a condition. -/
def make (registry : Registry G) : ConditionSketch → Draft G (Condition G)
  | always => return .always
  | never => return .never
  | conjunction conditions => return .conjunction (← makeAll registry conditions)
  | disjunction conditions => return .disjunction (← makeAll registry conditions)
  | negation inner => return .negation (← makeInner registry inner)
  | selection none => return .selection none
  | selection (some filter) => return .selection (some (← filter.make registry))
  | registered kind args =>
      Draft.made .condition kind args (registry.createCondition? kind args)

/-- Makes conditions in order. -/
def makeAll (registry : Registry G) : List ConditionSketch → Draft G (List (Condition G))
  | [] => return []
  | sketch :: rest => do
      let condition ← make registry sketch
      return condition :: (← makeAll registry rest)

/-- Makes an inner condition, if there is one. -/
def makeInner (registry : Registry G) :
    Option ConditionSketch → Draft G (Option (Condition G))
  | none => return none
  | some sketch => return some (← make registry sketch)

end

end ConditionSketch

namespace NodeForm

/-- Makes a single node without children or gate. -/
def make (registry : Registry G) : NodeForm G → Draft G (Node G)
  | composite kind => return .composite { id := ← Draft.issue } kind []
  | decorator kind => return .decorator { id := ← Draft.issue } kind none
  | timed duration mustComplete => return .timed { id := ← Draft.issue } duration mustComplete
  | action name mustComplete leaf =>
      return .action { id := ← Draft.issue } name mustComplete leaf
  | registered kind args => do
      let (node, supply) ← Draft.made .node kind args
        (registry.createNode? kind args (← get).shop.supply)
      Draft.setSupply supply
      return node

end NodeForm

namespace NodeSketch

/-- Attaches children in order. -/
def attachAll (node : Node G) : List (Node G) → Draft G (Node G)
  | [] => pure node
  | child :: rest => do attachAll (← Draft.assemble (node.addChild child)) rest

/-- Attaches a gate, if there is one. -/
def attachGate (registry : Registry G) (node : Node G) :
    Option ConditionSketch → Draft G (Node G)
  | none => pure node
  | some sketch => do
      let condition ← sketch.make registry
      return node.setCondition condition

/-- Puts a number of nodes of one form above a node. -/
def stack (registry : Registry G) (form : NodeForm G) : Nat → Node G → Draft G (Node G)
  | 0, node => pure node
  | length + 1, node => do
      let outer ← form.make registry
      stack registry form length (← attachAll outer [node])

mutual

/-- Makes a node after everything below it. -/
def make (registry : Registry G) : NodeSketch G → Draft G (Node G)
  | made form gate label children => do
      let children ← makeAll registry children
      let node ← attachAll (← form.make registry) children
      let node ← attachGate registry node gate
      Draft.label node label
      return node
  | chain form length inner => do stack registry form length (← make registry inner)
  | again label => do
      match (← get).labelled.lookup label with
      | some node => return node
      | none => throw (.unknownLabel label)

/-- Makes nodes in order. -/
def makeAll (registry : Registry G) : List (NodeSketch G) → Draft G (List (Node G))
  | [] => pure []
  | sketch :: rest => do
      let node ← make registry sketch
      return node :: (← makeAll registry rest)

end

/-- Makes a tree. Its top takes its identity after all other nodes. -/
def makeTree (registry : Registry G) (name : String) (sketch : NodeSketch G) :
    Draft G (Tree G) := do
  let child ← sketch.make registry
  let id ← Draft.issue
  Draft.assemble ((Tree.named id name).addChild child)

end NodeSketch

end BehaviorTree
