import BehaviorTree.Blueprint.Basic
import BehaviorTree.Registry
import BehaviorTree.Tree.Assembly

/-!
# Building trees from blueprints

A tree is built through the registry and the operations of assembly alone. Parts are made in
the order of the blueprint: the top, then each node before its condition and its children.
The first part that is unknown or does not fit stops the build; the identities issued by then
are spent.
-/

namespace BehaviorTree

variable {G : Game}

/-- Why a tree could not be loaded. -/
inductive LoadError where
  /-- The document could not be read. -/
  | unreadable
  /-- The document is no description of a tree. -/
  | malformedDocument
  | unknownNode (kind : String)
  | unknownCondition (kind : String)
  | unknownFilter (kind : String)
  /-- A part does not fit where the document puts it. -/
  | malformedTree (error : AssemblyError)
  /-- A tree of the same name is in the cache. -/
  | duplicateTree (name : String)
  deriving DecidableEq, Repr

/-- The text of a load error. Of a document that cannot be read or is malformed, only the
kind of fault is told. -/
def LoadError.message : LoadError → String
  | unreadable => "io error"
  | malformedDocument => "yaml parse error"
  | unknownNode kind => "unregistered node type: " ++ kind
  | unknownCondition kind => "unregistered condition type: " ++ kind
  | unknownFilter kind => "unregistered filter type: " ++ kind
  | malformedTree error => "malformed tree: " ++ error.message
  | duplicateTree name => "a behavior named " ++ Text.quote name ++ " is already cached"

/-- Something worth noting while parts are made. -/
inductive BuildNote where
  /-- A part was made from arguments. -/
  | made (family : Family) (kind : String) (args : Arguments)
  /-- Something was reported to the developer. -/
  | reported (diagnostic : Diagnostic)
  deriving DecidableEq, Repr

/-- Where parts are made: the supply of identities, and the notes taken so far. -/
structure Workshop where
  supply : Supply
  notes : Array BuildNote := Array.empty

/-- What was reported, in order. -/
def BuildNote.diagnostics (notes : Array BuildNote) : List Diagnostic :=
  notes.toList.filterMap fun
    | .reported diagnostic => some diagnostic
    | .made _ _ _ => none

/-- Making parts, which may fail. -/
abbrev Build (α : Type) := ExceptT LoadError (StateM Workshop) α

namespace Build

/-- Takes a note. -/
def note (what : BuildNote) : Build Unit :=
  modify fun shop => { shop with notes := shop.notes.push what }

/-- Reports that no factory has a name. -/
def reportUnknown (family : Family) (kind : String) : Build Unit :=
  note (.reported {
    severity := .warn
    message := "unknown " ++ family.name ++ " type"
    fields := [("kind", .text kind)] })

/-- An operation of assembly as a step of a build. -/
def assemble {α : Type} : Except AssemblyError α → Build α
  | .ok value => pure value
  | .error error => throw (.malformedTree error)

/-- Issues an identity. -/
def issue : Build NodeId := do
  let (id, supply) := (← get).supply.issue
  modify fun shop => { shop with supply }
  return id

/-- Makes a node by the name of its type. -/
def createNode (registry : Registry G) (kind : String) (args : Arguments) : Build (Node G) := do
  match registry.createNode? kind args (← get).supply with
  | some (node, supply) =>
      modify fun shop => { shop with supply }
      note (.made .node kind args)
      return node
  | none =>
      reportUnknown .node kind
      throw (.unknownNode kind)

/-- Makes a condition by the name of its type. -/
def createCondition (registry : Registry G) (kind : String) (args : Arguments) :
    Build (Condition G) := do
  match registry.createCondition? kind args with
  | some condition =>
      note (.made .condition kind args)
      return condition
  | none =>
      reportUnknown .condition kind
      throw (.unknownCondition kind)

/-- Makes a filter by the name of its type. -/
def createFilter (registry : Registry G) (kind : String) (args : Arguments) :
    Build (Filter G) := do
  match registry.createFilter? kind args with
  | some filter =>
      note (.made .filter kind args)
      return filter
  | none =>
      reportUnknown .filter kind
      throw (.unknownFilter kind)

end Build

/-- The arguments of a factory as a document gives them. -/
def Arguments.ofValues (values : List Yaml.Value) : Arguments := ⟨values.map Yaml.Value.argument⟩

/-- Makes a filter. -/
def FilterPlan.build (registry : Registry G) (plan : FilterPlan) : Build (Filter G) :=
  Build.createFilter registry plan.kind (.ofValues plan.args)

namespace ConditionPlan

/-- Attaches the filter of a condition, if it has one. -/
def attachFilter (registry : Registry G) (condition : Condition G) :
    Option FilterPlan → Build (Condition G)
  | none => pure condition
  | some plan => do
      let filter ← plan.build registry
      Build.assemble (condition.setFilter filter)

mutual

/-- Makes a condition: first itself, then its filter, then each nested condition. -/
def build (registry : Registry G) : ConditionPlan → Build (Condition G)
  | mk kind args filter conditions => do
      let condition ← Build.createCondition registry kind (.ofValues args)
      let condition ← attachFilter registry condition filter
      attachAll registry condition conditions

/-- Attaches nested conditions in order, each as soon as it is made. -/
def attachAll (registry : Registry G) (condition : Condition G) :
    List ConditionPlan → Build (Condition G)
  | [] => pure condition
  | plan :: rest => do
      let inner ← build registry plan
      let condition ← Build.assemble (condition.addCondition inner)
      attachAll registry condition rest

end

end ConditionPlan

namespace NodePlan

/-- Attaches the condition of a node, if it has one. -/
def attachCondition (registry : Registry G) (node : Node G) :
    Option ConditionPlan → Build (Node G)
  | none => pure node
  | some plan => do
      let condition ← plan.build registry
      return node.setCondition condition

mutual

/-- Makes a node: first itself, then its condition, then each child. -/
def build (registry : Registry G) : NodePlan → Build (Node G)
  | mk kind args condition children => do
      let node ← Build.createNode registry kind (.ofValues args)
      let node ← attachCondition registry node condition
      attachChildren registry node children

/-- Attaches children in order, each as soon as it is made. -/
def attachChildren (registry : Registry G) (node : Node G) : List NodePlan → Build (Node G)
  | [] => pure node
  | plan :: rest => do
      let child ← build registry plan
      let node ← Build.assemble (node.addChild child)
      attachChildren registry node rest

end

end NodePlan

namespace Blueprint

/-- A tree that was loaded. -/
def loaded (tree : Tree G) : Diagnostic where
  severity := .debug
  message := "behavior loaded"
  fields := [("tree", .text tree.name), ("nodes", .number tree.count)]

/-- Makes a tree. Its top takes its identity before all other nodes. -/
def build (registry : Registry G) (plan : Blueprint) : Build (Tree G) := do
  let id ← Build.issue
  let child ← plan.tree.build registry
  let tree ← Build.assemble ((Tree.named id plan.name).addChild child)
  Build.note (.reported (loaded tree))
  return tree

/-- Makes the tree that a text describes. A text that describes none spends no identity. -/
def load (registry : Registry G) (text : String) : Build (Tree G) :=
  match ofText? text with
  | none => throw .malformedDocument
  | some plan => plan.build registry

/-- Makes the tree that a file describes, if the file could be read. -/
def loadFile (registry : Registry G) : Option String → Build (Tree G)
  | none => throw .unreadable
  | some text => load registry text

end Blueprint

end BehaviorTree
