import BehaviorTree.Blueprint.Build
import Mathlib.Data.List.Basic

/-!
# Surveys of blueprints

Which blueprints can be built, said without building them. A blueprint is `WellFormed` if each
part that it describes is known to the registry and takes what is attached to it; `faults` lists
everything that is wrong with one, in the order in which a build comes to it; a tree `Mirrors` a
blueprint if it has the described parts in the described places.

A build goes through the blueprint once and stops at the first fault (`Blueprint.build_accepts`).
What factories of nodes make may depend on the supply, so each description of a node is looked at
with the supply that is left when its turn comes.
-/

namespace BehaviorTree

variable {G : Game}

/-! ## What parts take -/

/-- A single place takes so many things if it is free for each of them. -/
theorem place_takes_iff {α : Type} (place : Option α) (count : Nat) :
    place.toList.length + count ≤ 1 ↔ ∀ given < count, place.toList.length + given = 0 := by
  have hone : place.toList.length ≤ 1 := by cases place <;> simp
  constructor
  · intro h given hgiven
    omega
  · intro h
    have hlast := h (count - 1)
    omega

namespace Node

/-- Whether a node takes so many children besides those that it has. -/
def Takes (count : Nat) : Node G → Prop
  | composite _ _ _ => True
  | decorator _ _ child => child.toList.length + count ≤ 1
  | timed _ _ _ | action _ _ _ _ => count = 0

/-- Why a node that was given so many children takes no further one. -/
def refusal? (given : Nat) : Node G → Option AssemblyError
  | composite _ _ _ => none
  | decorator _ kind child =>
      if child.toList.length + given = 0 then none else some (.childAlreadySet kind.typeName)
  | node@(timed _ _ _) | node@(action _ _ _ _) => some (.noChildren node.typeName)

/-- A node takes some children if it refuses none of them. -/
theorem takes_iff {node : Node G} {count : Nat} :
    node.Takes count ↔ ∀ given < count, node.refusal? given = none := by
  cases node with
  | composite head kind children => simp [Takes, refusal?]
  | decorator head kind child =>
      simp only [Takes, refusal?, ite_eq_left_iff, reduceCtorEq, imp_false, not_not]
      exact place_takes_iff child count
  | timed | action =>
      simp only [Takes, refusal?, reduceCtorEq, imp_false]
      exact ⟨fun h given hgiven => by omega, fun h => by_contra fun hcount => h 0 (by omega)⟩

/-- A node without its gate and its children. -/
def bare : Node G → Node G
  | composite head kind _ => composite ⟨head.id, none⟩ kind []
  | decorator head kind _ => decorator ⟨head.id, none⟩ kind none
  | timed head duration mustComplete => timed ⟨head.id, none⟩ duration mustComplete
  | action head name mustComplete leaf => action ⟨head.id, none⟩ name mustComplete leaf

/-- A node without its gate and its children has the same identity. -/
theorem id_bare (node : Node G) : node.bare.id = node.id := by
  cases node <;> rfl

/-- A node is another one with a gate of its own and with further children behind the others. -/
structure Extends (made : Node G) (gate : Option (Condition G)) (below : List (Node G))
    (node : Node G) : Prop where
  bare : node.bare = made.bare
  gate : node.gate = gate
  children : node.children = made.children ++ below

/-- A node extends itself by nothing. -/
theorem Extends.refl (made : Node G) : made.Extends made.gate [] made :=
  ⟨rfl, rfl, (List.append_nil _).symm⟩

/-- A node that is given a condition is extended by it in the place of its gate. -/
theorem Extends.set_condition {made node : Node G} {gate : Option (Condition G)}
    {below : List (Node G)} (h : made.Extends gate below node) (condition : Condition G) :
    made.Extends (some condition) below (node.setCondition condition) := by
  obtain ⟨hbare, -, hchildren⟩ := h
  cases node <;> exact ⟨hbare, rfl, hchildren⟩

/-- A child is added behind the others unless the node as it was made refuses one more. -/
theorem Extends.add_child {made node : Node G} {gate : Option (Condition G)}
    {below : List (Node G)} (h : made.Extends gate below node) (child : Node G) :
    match made.refusal? below.length with
    | some error => node.addChild child = .error error
    | none => ∃ more, node.addChild child = .ok more ∧
        made.Extends gate (below ++ [child]) more := by
  obtain ⟨hbare, hgate, hchildren⟩ := h
  cases made with
  | composite head kind children =>
      cases node with
      | composite =>
          refine ⟨_, rfl, hbare, hgate, ?_⟩
          simp only [Node.children] at hchildren ⊢
          rw [hchildren, List.append_assoc]
      | decorator | timed | action => simp [Node.bare] at hbare
  | decorator head kind first =>
      cases node with
      | decorator _ _ second =>
          obtain ⟨-, rfl⟩ : _ ∧ _ := by simpa [Node.bare] using hbare
          simp only [Node.children] at hchildren
          have hcount : second.toList.length = first.toList.length + below.length := by
            rw [hchildren, List.length_append]
          -- The one place of a decorator is free if neither the factory nor the blueprint has
          -- filled it.
          cases second with
          | none =>
              have hfree : first.toList.length + below.length = 0 := hcount.symm
              rw [refusal?, if_pos hfree]
              refine ⟨_, rfl, hbare, hgate, ?_⟩
              have hempty := List.append_eq_nil_iff.1 hchildren.symm
              simp [Node.children, hempty.1, hempty.2]
          | some => rw [refusal?, if_neg (by simp [← hcount])]; rfl
      | composite | timed | action => simp [Node.bare] at hbare
  | timed | action =>
      cases node with
      | composite | decorator => simp [Node.bare] at hbare
      | timed | action => simp_all [Node.bare, refusal?, Node.addChild, typeName]

end Node

namespace Condition

/-- Whether a condition takes so many nested ones besides those that it has. -/
def Takes (count : Nat) : Condition G → Prop
  | conjunction _ | disjunction _ => True
  | negation inner => inner.toList.length + count ≤ 1
  | always | never | selection _ | game _ _ => count = 0

/-- Whether a condition takes a filter. -/
def TakesFilter : Condition G → Prop
  | selection _ => True
  | always | never | conjunction _ | disjunction _ | negation _ | game _ _ => False

/-- Why a condition that was given so many nested ones takes no further one. -/
def refusal? (given : Nat) : Condition G → Option AssemblyError
  | conjunction _ | disjunction _ => none
  | negation inner =>
      if inner.toList.length + given = 0 then none else some (.conditionAlreadySet "Not")
  | condition@(always) | condition@(never) | condition@(selection _) | condition@(game _ _) =>
      some (.noNestedConditions condition.typeName)

/-- Why a condition takes no filter. -/
def filterRefusal? : Condition G → Option AssemblyError
  | selection _ => none
  | condition@(always) | condition@(never) | condition@(conjunction _)
  | condition@(disjunction _) | condition@(negation _) | condition@(game _ _) =>
      some (.noFilter condition.typeName)

/-- A condition takes some nested ones if it refuses none of them. -/
theorem takes_iff {condition : Condition G} {count : Nat} :
    condition.Takes count ↔ ∀ given < count, condition.refusal? given = none := by
  cases condition with
  | conjunction | disjunction => simp [Takes, refusal?]
  | negation inner =>
      simp only [Takes, refusal?, ite_eq_left_iff, reduceCtorEq, imp_false, not_not]
      exact place_takes_iff inner count
  | always | never | selection | game =>
      simp only [Takes, refusal?, reduceCtorEq, imp_false]
      exact ⟨fun h given hgiven => by omega, fun h => by_contra fun hcount => h 0 (by omega)⟩

/-- A condition takes a filter unless it refuses one. -/
theorem takes_filter_iff {condition : Condition G} :
    condition.TakesFilter ↔ condition.filterRefusal? = none := by
  cases condition <;> simp [TakesFilter, filterRefusal?]

/-- A condition without its filter and its nested conditions. -/
def bare : Condition G → Condition G
  | always => always
  | never => never
  | conjunction _ => conjunction []
  | disjunction _ => disjunction []
  | negation _ => negation none
  | selection _ => selection none
  | game name test => game name test

/-- A condition is another one with a filter of its own and with further nested conditions
behind the others. -/
structure Extends (made : Condition G) (filter : Option (Filter G)) (inside : List (Condition G))
    (condition : Condition G) : Prop where
  bare : condition.bare = made.bare
  filter : condition.filter? = filter
  nested : condition.nested = made.nested ++ inside

/-- A condition extends itself by nothing. -/
theorem Extends.refl (made : Condition G) : made.Extends made.filter? [] made :=
  ⟨rfl, rfl, (List.append_nil _).symm⟩

/-- A filter is attached unless the condition refuses it. -/
theorem set_filter_extends (made : Condition G) (filter : Filter G) :
    match made.filterRefusal? with
    | some error => made.setFilter filter = .error error
    | none => ∃ more, made.setFilter filter = .ok more ∧ made.Extends (some filter) [] more := by
  cases made with
  | selection => exact ⟨_, rfl, rfl, rfl, rfl⟩
  | always | never | conjunction | disjunction | negation | game => rfl

/-- A nested condition is added behind the others unless the condition as it was made refuses
one more. -/
theorem Extends.add_condition {made condition : Condition G} {filter : Option (Filter G)}
    {inside : List (Condition G)} (h : made.Extends filter inside condition)
    (inner : Condition G) :
    match made.refusal? inside.length with
    | some error => condition.addCondition inner = .error error
    | none => ∃ more, condition.addCondition inner = .ok more ∧
        made.Extends filter (inside ++ [inner]) more := by
  obtain ⟨hbare, hfilter, hnested⟩ := h
  cases made with
  | conjunction | disjunction =>
      cases condition <;> try simp [Condition.bare] at hbare
      refine ⟨_, rfl, rfl, hfilter, ?_⟩
      simp only [Condition.nested] at hnested ⊢
      rw [hnested, List.append_assoc]
  | negation first =>
      cases condition <;> try simp [Condition.bare] at hbare
      rename_i second
      simp only [Condition.nested] at hnested
      have hcount : second.toList.length = first.toList.length + inside.length := by
        rw [hnested, List.length_append]
      cases second with
      | none =>
          have hfree : first.toList.length + inside.length = 0 := hcount.symm
          rw [refusal?, if_pos hfree]
          refine ⟨_, rfl, rfl, hfilter, ?_⟩
          have hempty := List.append_eq_nil_iff.1 hnested.symm
          simp [Condition.nested, hempty.1, hempty.2]
      | some => rw [refusal?, if_neg (by simp [← hcount])]; rfl
  | always | never | selection | game =>
      cases condition <;> simp_all [Condition.bare, refusal?, Condition.addCondition, typeName]

end Condition

/-! ## Conditions that are described -/

/-- A refusal as a reason why a tree cannot be loaded. -/
def misfits (refusal : Option AssemblyError) : List LoadError :=
  refusal.toList.map .malformedTree

/-- Nothing is wrong where nothing is refused. -/
@[simp] theorem misfits_none : misfits none = [] := rfl

/-- What is refused is what is wrong with the tree. -/
@[simp] theorem misfits_some (error : AssemblyError) :
    misfits (some error) = [.malformedTree error] := rfl

/-- Nothing is wrong only where nothing is refused. -/
theorem misfits_eq_nil {refusal : Option AssemblyError} :
    misfits refusal = [] ↔ refusal = none := by
  cases refusal <;> simp

/-- What is wrong with the description of a filter. -/
def FilterPlan.faults (registry : Registry G) (plan : FilterPlan) : List LoadError :=
  if (registry.createFilter? plan.kind (.ofValues plan.args)).isSome then []
  else [.unknownFilter plan.kind]

namespace ConditionPlan

mutual

/-- The description of a condition and those of all conditions nested in it. -/
def specs : ConditionPlan → List ConditionPlan
  | plan@(mk _ _ _ conditions) => plan :: specsAll conditions

/-- The descriptions of some conditions and of all conditions nested in them. -/
def specsAll : List ConditionPlan → List ConditionPlan
  | [] => []
  | plan :: rest => specs plan ++ specsAll rest

end

/-- The type of a condition and that of its filter are known, and the condition takes its filter
and as many nested conditions as there are. -/
def Fits (registry : Registry G) : ConditionPlan → Prop
  | mk kind args filter conditions =>
      (∃ made, registry.createCondition? kind (.ofValues args) = some made ∧
        (filter.isSome → made.TakesFilter) ∧ made.Takes conditions.length) ∧
      ∀ plan ∈ filter, (registry.createFilter? plan.kind (.ofValues plan.args)).isSome

/-- The descriptions of a condition and of all conditions nested in it fit. -/
def WellFormed (registry : Registry G) (plan : ConditionPlan) : Prop :=
  ∀ spec ∈ plan.specs, spec.Fits registry

/-- What is wrong with the filter of a condition: its type, or that it is there at all. -/
def filterFaults (registry : Registry G) (made : Option (Condition G)) :
    Option FilterPlan → List LoadError
  | none => []
  | some plan => plan.faults registry ++ misfits (made.bind Condition.filterRefusal?)

mutual

/-- What is wrong with the description of a condition: its type, then its filter, then each
nested condition. -/
def faults (registry : Registry G) : ConditionPlan → List LoadError
  | mk kind args filter conditions =>
      let made := registry.createCondition? kind (.ofValues args)
      (if made.isSome then [] else [.unknownCondition kind]) ++
        (filterFaults registry made filter ++ nestedFaults registry made 0 conditions)

/-- What is wrong with nested conditions: what is wrong with one comes before its being one too
many. -/
def nestedFaults (registry : Registry G) (made : Option (Condition G)) :
    Nat → List ConditionPlan → List LoadError
  | _, [] => []
  | given, plan :: rest =>
      faults registry plan ++
        (misfits (made.bind (Condition.refusal? given)) ++
          nestedFaults registry made (given + 1) rest)

end

variable {registry : Registry G}

/-- Nothing is wrong with a filter that is known and that the condition takes. -/
theorem filter_faults_eq_nil {made : Condition G} {filter : Option FilterPlan} :
    filterFaults registry (some made) filter = [] ↔
      (filter.isSome → made.TakesFilter) ∧
        ∀ plan ∈ filter, (registry.createFilter? plan.kind (.ofValues plan.args)).isSome := by
  cases filter with
  | none => simp [filterFaults]
  | some plan =>
      simp [filterFaults, FilterPlan.faults, misfits_eq_nil, Condition.takes_filter_iff, and_comm,
        Option.isSome_iff_ne_none]

mutual

/-- Nothing is wrong with the description of a condition just in case it is well formed. -/
theorem faults_eq_nil : ∀ plan : ConditionPlan,
    plan.faults registry = [] ↔ plan.WellFormed registry
  | mk kind args filter conditions => by
      rw [faults, WellFormed, specs, List.forall_mem_cons, Fits]
      cases hmade : registry.createCondition? kind (.ofValues args) with
      | none => simp
      | some made =>
          have hnested := nested_faults_eq_nil made 0 conditions
          have htakes : (∀ more < conditions.length, made.refusal? more = none) ↔
              made.Takes conditions.length := Condition.takes_iff.symm
          simp only [Nat.zero_add, htakes] at hnested
          simp only [Option.isSome_some, ↓reduceIte, List.nil_append, List.append_eq_nil_iff,
            filter_faults_eq_nil, Option.mem_def, hnested, Option.some.injEq, exists_eq_left']
          tauto

/-- Nothing is wrong with nested conditions that fit and of which none is one too many. -/
theorem nested_faults_eq_nil (made : Condition G) : ∀ (given : Nat) (plans : List ConditionPlan),
    nestedFaults registry (some made) given plans = [] ↔
      (∀ spec ∈ specsAll plans, spec.Fits registry) ∧
        ∀ more < plans.length, made.refusal? (given + more) = none
  | given, [] => by simp [nestedFaults, specsAll]
  | given, plan :: rest => by
      have hplan := faults_eq_nil plan
      have hrest := nested_faults_eq_nil made (given + 1) rest
      rw [nestedFaults, specsAll, List.append_eq_nil_iff, List.append_eq_nil_iff, hplan, hrest,
        WellFormed, List.forall_mem_append, List.length_cons, Nat.forall_lt_succ_left]
      simp only [Option.bind_some, misfits_eq_nil, Nat.add_zero, Nat.add_right_comm given 1,
        ← Nat.add_assoc]
      tauto

end

/-- The filter that a condition has if one is described, or else the one it was made with. -/
def Sieves (registry : Registry G) (made : Condition G) :
    Option FilterPlan → Option (Filter G) → Prop
  | none, filter => filter = made.filter?
  | some plan, filter =>
      ∃ attached, registry.createFilter? plan.kind (.ofValues plan.args) = some attached ∧
        filter = some attached

mutual

/-- A condition was made by the described factory from the described arguments, and has the
described filter and nested conditions where they are described. -/
def Mirrors (registry : Registry G) : ConditionPlan → Condition G → Prop
  | mk kind args filter conditions, condition =>
      ∃ made attached inside, registry.createCondition? kind (.ofValues args) = some made ∧
        made.Extends attached inside condition ∧ Sieves registry made filter attached ∧
          MirrorsAll registry conditions inside

/-- Conditions mirror their descriptions, one by one. -/
def MirrorsAll (registry : Registry G) : List ConditionPlan → List (Condition G) → Prop
  | [], inside => inside = []
  | plan :: rest, inside =>
      ∃ first later, inside = first :: later ∧ Mirrors registry plan first ∧
        MirrorsAll registry rest later

end

end ConditionPlan

/-! ## Nodes that are described -/

namespace NodePlan

/-- The type of a node as it is written in a document. -/
def kind : NodePlan → String
  | mk kind _ _ _ => kind

/-- The arguments of a node as its factory gets them. -/
def arguments : NodePlan → Arguments
  | mk _ args _ _ => .ofValues args

mutual

/-- The description of a node and those of all nodes below it, each before those of its
children. -/
def specs : NodePlan → List NodePlan
  | plan@(mk _ _ _ children) => plan :: specsAll children

/-- The descriptions of some nodes and of all nodes below them. -/
def specsAll : List NodePlan → List NodePlan
  | [] => []
  | plan :: rest => specs plan ++ specsAll rest

end

/-- What is left of a supply once a described node was made. -/
def draw (registry : Registry G) (supply : Supply) (plan : NodePlan) : Supply :=
  ((registry.createNode? plan.kind plan.arguments supply).map Prod.snd).getD supply

/-- What is left of a supply once some described nodes were made in order. -/
def drawAll (registry : Registry G) (supply : Supply) (plans : List NodePlan) : Supply :=
  plans.foldl (draw registry) supply

/-- Descriptions of nodes, each with the supply that it finds when all before it were made. -/
def turns (registry : Registry G) : Supply → List NodePlan → List (NodePlan × Supply)
  | _, [] => []
  | supply, plan :: rest => (plan, supply) :: turns registry (draw registry supply plan) rest

/-- The type of a node is known, the node takes as many children as there are, and its
condition, if there is one, is well formed. -/
def Fits (registry : Registry G) (supply : Supply) : NodePlan → Prop
  | mk kind args condition children =>
      (∃ made rest, registry.createNode? kind (.ofValues args) supply = some (made, rest) ∧
        made.Takes children.length) ∧
      ∀ gate ∈ condition, gate.WellFormed registry

/-- The descriptions of a node and of all nodes below it fit. -/
def WellFormed (registry : Registry G) (supply : Supply) (plan : NodePlan) : Prop :=
  ∀ turn ∈ turns registry supply plan.specs, turn.1.Fits registry turn.2

mutual

/-- What is wrong with the description of a node: its type, then its condition, then each
child. -/
def faults (registry : Registry G) (supply : Supply) : NodePlan → List LoadError
  | plan@(mk kind args condition children) =>
      let made := (registry.createNode? kind (.ofValues args) supply).map Prod.fst
      (if made.isSome then [] else [.unknownNode kind]) ++
        (condition.toList.flatMap (ConditionPlan.faults registry) ++
          childFaults registry made 0 (draw registry supply plan) children)

/-- What is wrong with children: what is wrong with one comes before its being one too many. -/
def childFaults (registry : Registry G) (made : Option (Node G)) :
    Nat → Supply → List NodePlan → List LoadError
  | _, _, [] => []
  | given, supply, plan :: rest =>
      faults registry supply plan ++
        (misfits (made.bind (Node.refusal? given)) ++
          childFaults registry made (given + 1) (drawAll registry supply plan.specs) rest)

end

variable {registry : Registry G}

/-- What is left of a supply after some nodes is what the first and then the others leave. -/
theorem draw_all_append (supply : Supply) (early late : List NodePlan) :
    drawAll registry supply (early ++ late) =
      drawAll registry (drawAll registry supply early) late := List.foldl_append

/-- The turns of some nodes are those of the first, and those of the others with what is left. -/
theorem turns_append (supply : Supply) (early late : List NodePlan) :
    turns registry supply (early ++ late) =
      turns registry supply early ++ turns registry (drawAll registry supply early) late := by
  induction early generalizing supply with
  | nil => rfl
  | cons plan rest ih => exact congrArg _ (ih _)

mutual

/-- Nothing is wrong with the description of a node just in case it is well formed. -/
theorem faults_eq_nil (supply : Supply) : ∀ plan : NodePlan,
    plan.faults registry supply = [] ↔ plan.WellFormed registry supply
  | mk kind args condition children => by
      rw [faults, WellFormed, specs, turns, List.forall_mem_cons, Fits]
      cases hmade : registry.createNode? kind (.ofValues args) supply with
      | none => simp
      | some drawn =>
          obtain ⟨made, rest⟩ := drawn
          have hchildren := child_faults_eq_nil made 0
            (draw registry supply (mk kind args condition children)) children
          have htakes : (∀ more < children.length, made.refusal? more = none) ↔
              made.Takes children.length := Node.takes_iff.symm
          simp only [Nat.zero_add, htakes] at hchildren
          have hcondition : condition.toList.flatMap (ConditionPlan.faults registry) = [] ↔
              ∀ gate ∈ condition, gate.WellFormed registry := by
            simp only [List.flatMap_eq_nil_iff, Option.mem_toList, ConditionPlan.faults_eq_nil]
            rfl
          have hfits : (∃ node left, some (made, rest) = some (node, left) ∧
              node.Takes children.length) ↔ made.Takes children.length := by simp
          rw [Option.map_some, Option.isSome_some, if_pos rfl, List.nil_append,
            List.append_eq_nil_iff, hcondition, hchildren, hfits]
          tauto

/-- Nothing is wrong with children that fit and of which none is one too many. -/
theorem child_faults_eq_nil (made : Node G) : ∀ (given : Nat) (supply : Supply)
    (plans : List NodePlan), childFaults registry (some made) given supply plans = [] ↔
      (∀ turn ∈ turns registry supply (specsAll plans), turn.1.Fits registry turn.2) ∧
        ∀ more < plans.length, made.refusal? (given + more) = none
  | given, supply, [] => by simp [childFaults, specsAll, turns]
  | given, supply, plan :: rest => by
      have hplan := faults_eq_nil supply plan
      have hrest := child_faults_eq_nil made (given + 1) (drawAll registry supply plan.specs) rest
      rw [childFaults, specsAll, turns_append, List.append_eq_nil_iff, List.append_eq_nil_iff,
        hplan, hrest, WellFormed, List.forall_mem_append, List.length_cons,
        Nat.forall_lt_succ_left]
      simp only [Option.bind_some, misfits_eq_nil, Nat.add_zero, Nat.add_right_comm given 1,
        ← Nat.add_assoc]
      tauto

end

/-- The condition that gates a node if one is described, or else the one it was made with. -/
def Gates (registry : Registry G) (made : Node G) :
    Option ConditionPlan → Option (Condition G) → Prop
  | none, gate => gate = made.gate
  | some plan, gate => ∃ attached, plan.Mirrors registry attached ∧ gate = some attached

mutual

/-- A node was made by the described factory from the described arguments, and has the
described condition and children where they are described. -/
def Mirrors (registry : Registry G) (supply : Supply) : NodePlan → Node G → Prop
  | plan@(mk kind args condition children), node =>
      ∃ made rest gate below,
        registry.createNode? kind (.ofValues args) supply = some (made, rest) ∧
          made.Extends gate below node ∧ Gates registry made condition gate ∧
            MirrorsAll registry (draw registry supply plan) children below

/-- Nodes mirror their descriptions, one by one. -/
def MirrorsAll (registry : Registry G) : Supply → List NodePlan → List (Node G) → Prop
  | _, [], below => below = []
  | supply, plan :: rest, below =>
      ∃ first later, below = first :: later ∧ Mirrors registry supply plan first ∧
        MirrorsAll registry (drawAll registry supply plan.specs) rest later

end

end NodePlan

/-! ## Trees that are described -/

namespace Blueprint

/-- The description of a tree is well formed: the top takes an identity first, and then nothing
is wrong below it. -/
def WellFormed (registry : Registry G) (supply : Supply) (plan : Blueprint) : Prop :=
  plan.tree.WellFormed registry supply.issue.2

/-- What is wrong with the description of a tree, in the order in which a build comes to it. -/
def faults (registry : Registry G) (supply : Supply) (plan : Blueprint) : List LoadError :=
  plan.tree.faults registry supply.issue.2

/-- A tree has the described name and the described node under a top of its own. -/
structure Mirrors (registry : Registry G) (supply : Supply) (plan : Blueprint) (tree : Tree G) :
    Prop where
  name : tree.name = plan.name
  top : tree.head = ⟨supply.issue.1, none⟩
  child : ∃ node, tree.child = some node ∧ plan.tree.Mirrors registry supply.issue.2 node

end Blueprint

end BehaviorTree
