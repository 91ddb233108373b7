import BehaviorTree.Agent.Basic
import BehaviorTree.Arguments
import BehaviorTree.Diagnostic
import BehaviorTree.Text.Quoted

/-!
# The registry of factories

Named factories for nodes, conditions and filters, each family with names of its own. The
first registration of a name stands; a later one is refused and changes nothing. Factories
of nodes draw identities from a supply.
-/

namespace BehaviorTree

variable {G : Game}

/-- Makes a node from arguments. -/
abbrev NodeFactory (G : Game) := Arguments → Supply → Node G × Supply

/-- Makes a condition from arguments. -/
abbrev ConditionFactory (G : Game) := Arguments → Condition G

/-- Makes a filter from arguments. -/
abbrev FilterFactory (G : Game) := Arguments → Filter G

/-- The three families of parts that are made by name. -/
inductive Family where
  | node
  | condition
  | filter
  deriving DecidableEq, Repr

/-- The written name of a family. -/
def Family.name : Family → String
  | node => "node"
  | condition => "condition"
  | filter => "filter"

namespace Registry

/-- Factories of one family by name, in the order of registration. -/
abbrev Shelf (α : Type) := List (String × α)

namespace Shelf

variable {α : Type}

/-- The factory registered under a name. -/
def get? (shelf : Shelf α) (name : String) : Option α :=
  match shelf with
  | [] => none
  | (other, factory) :: rest => if other = name then some factory else get? rest name

def contains (shelf : Shelf α) (name : String) : Bool := (shelf.get? name).isSome

/-- Registers a factory unless its name is taken. -/
def add (shelf : Shelf α) (name : String) (factory : α) : Shelf α :=
  if shelf.contains name then shelf else shelf ++ [(name, factory)]

/-- The registered names, ascending by code points. -/
def names (shelf : Shelf α) : List String := (shelf.map Prod.fst).mergeSort fun a b => a ≤ b

/-- A name has the first factory for it, so one that is put last counts where there was none. -/
theorem get?_append (shelf : Shelf α) (name other : String) (factory : α) :
    (shelf ++ [(name, factory)] : Shelf α).get? other =
      (shelf.get? other).or (if name = other then some factory else none) := by
  induction shelf with
  | nil => simp [get?]
  | cons head rest ih =>
      obtain ⟨n, f⟩ := head
      simp only [List.cons_append, get?, ih]
      split <;> simp

/-- A registered factory is found unless an earlier one has the name. -/
theorem get?_add (shelf : Shelf α) (name other : String) (factory : α) :
    (shelf.add name factory).get? other =
      (shelf.get? other).or (if name = other then some factory else none) := by
  unfold add
  split
  · rename_i h
    split
    · rename_i hname
      subst hname
      rw [contains, Option.isSome_iff_exists] at h
      obtain ⟨found, hfound⟩ := h
      simp [hfound]
    · simp
  · exact get?_append shelf name other factory

end Shelf

end Registry

/-- The factories of all three families. -/
structure Registry (G : Game) where
  nodes : Registry.Shelf (NodeFactory G) := []
  conditions : Registry.Shelf (ConditionFactory G) := []
  filters : Registry.Shelf (FilterFactory G) := []

namespace Registry

/-- The registry without factories. -/
def empty : Registry G := {}

/-- A registration that was taken. -/
def registered (family : Family) (name : String) : Diagnostic where
  severity := .debug
  message := "factory registered"
  fields := [("kind", .text family.name), ("name", .text name)]

/-- A registration that was refused. -/
def refused (family : Family) (name : String) : Diagnostic where
  severity := .warn
  message := "factory already registered, keeping the existing one"
  fields := [("kind", .text family.name), ("name", .text name)]

/-- What comes of a registration: whether it was taken, and the registry afterwards. -/
def registration (family : Family) (name : String) (free : Bool) (registry : Registry G) :
    Reported (Bool × Registry G) where
  value := (free, registry)
  diagnostics := [if free then registered family name else refused family name]

/-- Registers a factory of nodes unless the name is taken. -/
def registerNode (registry : Registry G) (name : String) (factory : NodeFactory G) :
    Reported (Bool × Registry G) :=
  registration .node name (!registry.nodes.contains name)
    { registry with nodes := registry.nodes.add name factory }

/-- Registers a factory of conditions unless the name is taken. -/
def registerCondition (registry : Registry G) (name : String) (factory : ConditionFactory G) :
    Reported (Bool × Registry G) :=
  registration .condition name (!registry.conditions.contains name)
    { registry with conditions := registry.conditions.add name factory }

/-- Registers a factory of filters unless the name is taken. -/
def registerFilter (registry : Registry G) (name : String) (factory : FilterFactory G) :
    Reported (Bool × Registry G) :=
  registration .filter name (!registry.filters.contains name)
    { registry with filters := registry.filters.add name factory }

/-- Makes a node by the exact name of its type. -/
def createNode? (registry : Registry G) (name : String) (args : Arguments) (supply : Supply) :
    Option (Node G × Supply) :=
  (registry.nodes.get? name).map fun factory => factory args supply

/-- Makes a condition by the exact name of its type. -/
def createCondition? (registry : Registry G) (name : String) (args : Arguments) :
    Option (Condition G) :=
  (registry.conditions.get? name).map fun factory => factory args

/-- Makes a filter by the exact name of its type. -/
def createFilter? (registry : Registry G) (name : String) (args : Arguments) :
    Option (Filter G) :=
  (registry.filters.get? name).map fun factory => factory args

/-- The names of the types of nodes, ascending. -/
def nodeTypes (registry : Registry G) : List String := registry.nodes.names

/-- The names of the types of conditions, ascending. -/
def conditionTypes (registry : Registry G) : List String := registry.conditions.names

/-- The names of the types of filters, ascending. -/
def filterTypes (registry : Registry G) : List String := registry.filters.names

/-- One registration. -/
inductive Entry (G : Game) where
  | node (name : String) (factory : NodeFactory G)
  | condition (name : String) (factory : ConditionFactory G)
  | filter (name : String) (factory : FilterFactory G)

/-- Registers one entry. -/
def register (registry : Registry G) : Entry G → Reported (Bool × Registry G)
  | .node name factory => registry.registerNode name factory
  | .condition name factory => registry.registerCondition name factory
  | .filter name factory => registry.registerFilter name factory

/-- Registers entries in order. -/
def registerAll (registry : Registry G) : List (Entry G) → Reported (Registry G)
  | [] => { value := registry }
  | entry :: rest =>
      let one := registry.register entry
      let more := registerAll one.value.2 rest
      { value := more.value, diagnostics := one.diagnostics ++ more.diagnostics }

/-- The form shown to programmers. -/
def debug (registry : Registry G) : String :=
  let list (names : List String) := Text.bracketed (names.map Text.quote)
  "Registry \x7b nodes: " ++ list registry.nodeTypes ++ ", conditions: " ++
    list registry.conditionTypes ++ ", filters: " ++ list registry.filterTypes ++ " \x7d"

/-- A factory of nodes that draws one identity. -/
def single (make : Arguments → Head G → Node G) : NodeFactory G := fun args supply =>
  let (id, rest) := supply.issue
  (make args { id }, rest)

/-- The nanoseconds of a number of milliseconds. -/
def milliseconds (count : Nat) : Nat := count * 1000000

/-- The nodes, conditions and filters that the engine provides. -/
def builtinEntries : List (Entry G) := [
  .node "Sequence" (single fun _ head => .composite head .sequence []),
  .node "Priority" (single fun _ head => .composite head .priority []),
  .node "Parallel" (single fun _ head => .composite head .parallel []),
  .node "Inverter" (single fun _ head => .decorator head .inverter none),
  .node "Repeater" (single fun _ head => .decorator head .repeater none),
  .node "Limit" (single fun args head => .decorator head (.limit (args.count 32 0)) none),
  .node "Succeed" (single fun _ head => .decorator head .succeed none),
  .node "Fail" (single fun _ head => .decorator head .fail none),
  .node "UntilSuccess" (single fun _ head => .decorator head .untilSuccess none),
  .node "UntilFail" (single fun _ head => .decorator head .untilFail none),
  .node "Timed" (single fun args head =>
    .timed head (milliseconds (args.count 64 0)) (args.flag 1)),
  .condition "And" fun _ => .conjunction [],
  .condition "Or" fun _ => .disjunction [],
  .condition "Not" fun _ => .negation none,
  .condition "True" fun _ => .always,
  .condition "False" fun _ => .never,
  .condition "Filter" fun _ => .selection none,
  .filter "Clear" fun _ => .clear,
  .filter "Unique" fun _ => .unique,
  .filter "First" fun args => .first (args.count 64 0),
  .filter "Exclude" fun _ => .exclude]

/-- Registers what the engine provides. -/
def registerBuiltins (registry : Registry G) : Reported (Registry G) :=
  registry.registerAll builtinEntries

/-- The registry of what the engine provides. -/
def builtins : Registry G := (empty.registerBuiltins (G := G)).value

end Registry

end BehaviorTree
