import BehaviorTree.Proofs.Survey
import BehaviorTree.Simulation.Demo

/-!
# Parts put together by many calls

What parts hold after any calls of assembly, in any mixture. Three policies stand beside each
other: composites, conjunctions and disjunctions append, decorators and negations keep the first
part that they are given, and gates and filters give way to the last one. Leaves and all other
conditions take nothing. `Node.holding` and `Condition.holding` say so of nodes and conditions.

A call that is refused leaves the part as it was. `assembly_keeps_order` has all this for nodes, for
conditions and for named trees.
-/

namespace BehaviorTree

variable {G : Game}

/-! ## Attempts -/

namespace Assembly

variable {α β γ κ : Type}

/-- The answer of an operation on a part, and the part afterwards: as it was, if the operation has
failed. -/
def attempt (part : α) : Except AssemblyError α → Except AssemblyError Unit × α
  | .ok more => (.ok (), more)
  | .error error => (.error error, part)

/-- The answer to something that may be refused. -/
def answerTo : Option AssemblyError → Except AssemblyError Unit
  | none => .ok ()
  | some error => .error error

/-- An attempt that is refused leaves the part as it was. -/
theorem attempt_refused {part : α} {result : Except AssemblyError α} {error : AssemblyError}
    (h : (attempt part result).1 = .error error) : (attempt part result).2 = part := by
  cases result with
  | ok more => exact nomatch h
  | error other => rfl

/-- If what a part is like after some more were given counts the one of a call as the first of
them, then calls count for what they give, in order. -/
theorem foldl_given {step : α → κ → α} (give : κ → Option β) (view : List β → α → γ)
    (hstep : ∀ part call given,
      view given (step part call) = view ((give call).toList ++ given) part)
    (part : α) (calls : List κ) :
    view [] (calls.foldl step part) = view (calls.filterMap give) part := by
  induction calls generalizing part with
  | nil => rfl
  | cons call rest ih =>
      rw [List.foldl_cons, ih, hstep, List.filterMap_cons]
      cases give call <;> rfl

/-- The last of those that were given takes the place of what was there before. -/
theorem get_last?_cons_or (first : α) (rest : List α) (before : Option α) :
    (first :: rest).getLast?.or before = rest.getLast?.or (some first) := by
  cases h : rest.getLast? <;> simp [List.getLast?_cons, h]

end Assembly

open Assembly

/-! ## Nodes -/

namespace Node

/-- A call of assembly on a node. -/
inductive Call (G : Game) where
  | addChild (child : Node G)
  | setCondition (condition : Condition G)

/-- The child that a call gives. -/
def Call.child? : Call G → Option (Node G)
  | addChild child => some child
  | setCondition _ => none

/-- The condition that a call gives. -/
def Call.gate? : Call G → Option (Condition G)
  | addChild _ => none
  | setCondition condition => some condition

/-- The answer to a call, and the node afterwards. -/
def perform (node : Node G) : Call G → Except AssemblyError Unit × Node G
  | .addChild child => attempt node (node.addChild child)
  | .setCondition condition => (.ok (), node.setCondition condition)

/-- The node after calls. -/
def performAll (node : Node G) (calls : List (Call G)) : Node G :=
  calls.foldl (fun node call => (node.perform call).2) node

/-- The children that a node holds after it was given some: all of them in order, or the first, or
none. -/
def holding (given : List (Node G)) : Node G → List (Node G)
  | composite _ _ children => children ++ given
  | decorator _ _ child => (child.toList ++ given).take 1
  | timed _ _ _ | action _ _ _ _ => []

/-- The gate of a node after it was given some: the last one. -/
def gating (given : List (Condition G)) (node : Node G) : Option (Condition G) :=
  given.getLast?.or node.gate

/-- Without more children a node holds its own. -/
theorem holding_nil (node : Node G) : node.holding [] = node.children := by
  cases node with
  | composite | timed | action => simp [holding, children]
  | decorator head kind child => cases child <;> rfl

/-- A call adds the child that it gives, if any, in front of those given later. -/
theorem holding_perform (node : Node G) (call : Call G) (given : List (Node G)) :
    (node.perform call).2.holding given = node.holding (call.child?.toList ++ given) := by
  cases call with
  | setCondition condition => cases node <;> rfl
  | addChild child =>
      cases node with
      | composite => simp [perform, attempt, addChild, holding, Call.child?]
      | decorator head kind first => cases first <;> rfl
      | timed | action => rfl

/-- A call adds the gate that it gives, if any, in front of those given later. -/
theorem gating_perform (node : Node G) (call : Call G) (given : List (Condition G)) :
    (node.perform call).2.gating given = node.gating (call.gate?.toList ++ given) := by
  cases call with
  | setCondition condition =>
      have hgate : (node.perform (.setCondition condition)).2.gate = some condition := by
        cases node <;> rfl
      rw [gating, hgate]
      exact (get_last?_cons_or condition given node.gate).symm
  | addChild child =>
      cases node with
      | composite | timed | action => rfl
      | decorator head kind first => cases first <;> rfl

/-- Further children are refused or taken as if the child of a call had been one more of them. -/
theorem refusal?_perform (node : Node G) (call : Call G) (given : List (Node G)) :
    (node.perform call).2.refusal? given.length =
      node.refusal? (call.child?.toList ++ given).length := by
  cases call with
  | setCondition condition => cases node <;> rfl
  | addChild child =>
      cases node with
      | composite | timed | action => rfl
      | decorator head kind first =>
          cases first <;> simp [perform, attempt, addChild, refusal?, Call.child?]

/-- A call does not change what a node is without its children and its gate. -/
theorem bare_perform (node : Node G) (call : Call G) : (node.perform call).2.bare = node.bare := by
  cases call with
  | setCondition condition => cases node <;> rfl
  | addChild child =>
      cases node with
      | composite | timed | action => rfl
      | decorator head kind first => cases first <;> rfl

/-- The answer to a child depends on the node alone. -/
theorem perform_add_child (node child : Node G) :
    (node.perform (.addChild child)).1 = answerTo (node.refusal? 0) := by
  cases node with
  | composite | timed | action => rfl
  | decorator head kind first => cases first <;> rfl

/-- A call that is refused leaves a node as it was. -/
theorem perform_refused {node : Node G} {call : Call G} {error : AssemblyError}
    (h : (node.perform call).1 = .error error) : (node.perform call).2 = node := by
  cases call with
  | addChild child => exact attempt_refused h
  | setCondition condition => exact nomatch h

/-- A node is what calls have made of it, and the next call is refused or taken by what was given
before. -/
structure Assembled (node : Node G) (calls : List (Call G)) (after : Node G) : Prop where
  children : after.children = node.holding (calls.filterMap Call.child?)
  gate : after.gate = node.gating (calls.filterMap Call.gate?)
  bare : after.bare = node.bare
  addChild : ∀ child, (after.perform (.addChild child)).1 =
    answerTo (node.refusal? (calls.filterMap Call.child?).length)
  setCondition : ∀ condition, (after.perform (.setCondition condition)).1 = .ok ()
  refused : ∀ call error, (after.perform call).1 = .error error → (after.perform call).2 = after

/-- Calls on a node make of it what was given, and refuse what it has no room for. -/
theorem perform_all_assembled (node : Node G) (calls : List (Call G)) :
    node.Assembled calls (node.performAll calls) where
  children := by
    rw [← holding_nil]
    exact foldl_given Call.child? holding holding_perform node calls
  gate := foldl_given Call.gate? gating gating_perform node calls
  bare := foldl_given Call.child? (fun _ => bare) (fun part call _ => part.bare_perform call)
    node calls
  addChild child := by
    rw [perform_add_child]
    exact congrArg answerTo
      (foldl_given Call.child? (refusal? ·.length) refusal?_perform node calls)
  setCondition _ := rfl
  refused _ _ := perform_refused

end Node

/-! ## Conditions -/

namespace Condition

/-- A call of assembly on a condition. -/
inductive Call (G : Game) where
  | addCondition (inner : Condition G)
  | setFilter (filter : Filter G)

/-- The nested condition that a call gives. -/
def Call.inner? : Call G → Option (Condition G)
  | addCondition inner => some inner
  | setFilter _ => none

/-- The filter that a call gives. -/
def Call.filter? : Call G → Option (Filter G)
  | addCondition _ => none
  | setFilter filter => some filter

/-- The answer to a call, and the condition afterwards. -/
def perform (condition : Condition G) : Call G → Except AssemblyError Unit × Condition G
  | .addCondition inner => attempt condition (condition.addCondition inner)
  | .setFilter filter => attempt condition (condition.setFilter filter)

/-- The condition after calls. -/
def performAll (condition : Condition G) (calls : List (Call G)) : Condition G :=
  calls.foldl (fun condition call => (condition.perform call).2) condition

/-- The nested conditions that a condition holds after it was given some: all of them in order, or
the first, or none. -/
def holding (given : List (Condition G)) : Condition G → List (Condition G)
  | conjunction conditions | disjunction conditions => conditions ++ given
  | negation inner => (inner.toList ++ given).take 1
  | always | never | selection _ | game _ _ => []

/-- The filter of a condition after it was given some: the last one, or none. -/
def filtering (given : List (Filter G)) : Condition G → Option (Filter G)
  | selection filter => given.getLast?.or filter
  | always | never | conjunction _ | disjunction _ | negation _ | game _ _ => none

/-- Without more nested conditions a condition holds its own. -/
theorem holding_nil (condition : Condition G) : condition.holding [] = condition.nested := by
  cases condition with
  | negation inner => cases inner <;> rfl
  | always | never | conjunction | disjunction | selection | game => simp [holding, nested]

/-- A call adds the nested condition that it gives, if any, in front of those given later. -/
theorem holding_perform (condition : Condition G) (call : Call G) (given : List (Condition G)) :
    (condition.perform call).2.holding given =
      condition.holding (call.inner?.toList ++ given) := by
  cases call with
  | setFilter filter => cases condition <;> rfl
  | addCondition inner =>
      cases condition with
      | conjunction | disjunction => simp [perform, attempt, addCondition, holding, Call.inner?]
      | negation first => cases first <;> rfl
      | always | never | selection | game => rfl

/-- A call adds the filter that it gives, if any, in front of those given later. -/
theorem filtering_perform (condition : Condition G) (call : Call G) (given : List (Filter G)) :
    (condition.perform call).2.filtering given =
      condition.filtering (call.filter?.toList ++ given) := by
  cases call with
  | setFilter filter =>
      cases condition with
      | selection old => exact (get_last?_cons_or filter given old).symm
      | always | never | conjunction | disjunction | negation | game => rfl
  | addCondition inner =>
      cases condition with
      | negation first => cases first <;> rfl
      | always | never | conjunction | disjunction | selection | game => rfl

/-- Further nested conditions are refused or taken as if the one of a call had been one more of
them. -/
theorem refusal?_perform (condition : Condition G) (call : Call G) (given : List (Condition G)) :
    (condition.perform call).2.refusal? given.length =
      condition.refusal? (call.inner?.toList ++ given).length := by
  cases call with
  | setFilter filter => cases condition <;> rfl
  | addCondition inner =>
      cases condition with
      | negation first =>
          cases first <;> simp [perform, attempt, addCondition, refusal?, Call.inner?]
      | always | never | conjunction | disjunction | selection | game => rfl

/-- A call does not change what a condition is without its nested conditions and its filter. -/
theorem bare_perform (condition : Condition G) (call : Call G) :
    (condition.perform call).2.bare = condition.bare := by
  cases call with
  | setFilter filter => cases condition <;> rfl
  | addCondition inner =>
      cases condition with
      | negation first => cases first <;> rfl
      | always | never | conjunction | disjunction | selection | game => rfl

/-- The answer to a nested condition depends on the condition alone. -/
theorem perform_add_condition (condition inner : Condition G) :
    (condition.perform (.addCondition inner)).1 = answerTo (condition.refusal? 0) := by
  cases condition with
  | negation first => cases first <;> rfl
  | always | never | conjunction | disjunction | selection | game => rfl

/-- The answer to a filter depends on the condition alone. -/
theorem perform_set_filter (condition : Condition G) (filter : Filter G) :
    (condition.perform (.setFilter filter)).1 = answerTo condition.filterRefusal? := by
  cases condition <;> rfl

/-- A call that is refused leaves a condition as it was. -/
theorem perform_refused {condition : Condition G} {call : Call G} {error : AssemblyError}
    (h : (condition.perform call).1 = .error error) : (condition.perform call).2 = condition := by
  cases call <;> exact attempt_refused h

/-- A condition is what calls have made of it, and the next call is refused or taken by what was
given before. -/
structure Assembled (condition : Condition G) (calls : List (Call G)) (after : Condition G) :
    Prop where
  nested : after.nested = condition.holding (calls.filterMap Call.inner?)
  filter : after.filter? = condition.filtering (calls.filterMap Call.filter?)
  bare : after.bare = condition.bare
  addCondition : ∀ inner, (after.perform (.addCondition inner)).1 =
    answerTo (condition.refusal? (calls.filterMap Call.inner?).length)
  setFilter : ∀ filter, (after.perform (.setFilter filter)).1 = answerTo condition.filterRefusal?
  refused : ∀ call error, (after.perform call).1 = .error error → (after.perform call).2 = after

/-- Whether a condition takes a filter does not change with calls. -/
theorem filter_refusal?_perform (condition : Condition G) (call : Call G) :
    (condition.perform call).2.filterRefusal? = condition.filterRefusal? := by
  cases call with
  | setFilter filter => cases condition <;> rfl
  | addCondition inner =>
      cases condition with
      | negation first => cases first <;> rfl
      | always | never | conjunction | disjunction | selection | game => rfl

/-- Without more filters a condition has its own. -/
theorem filtering_nil (condition : Condition G) : condition.filtering [] = condition.filter? := by
  cases condition <;> rfl

/-- Calls on a condition make of it what was given, and refuse what it has no room for. -/
theorem perform_all_assembled (condition : Condition G) (calls : List (Call G)) :
    condition.Assembled calls (condition.performAll calls) where
  nested := by
    rw [← holding_nil]
    exact foldl_given Call.inner? holding holding_perform condition calls
  filter := by
    rw [← filtering_nil]
    exact foldl_given Call.filter? filtering filtering_perform condition calls
  bare := foldl_given Call.inner? (fun _ => bare) (fun part call _ => part.bare_perform call)
    condition calls
  addCondition inner := by
    rw [perform_add_condition]
    exact congrArg answerTo
      (foldl_given Call.inner? (refusal? ·.length) refusal?_perform condition calls)
  setFilter filter := by
    rw [perform_set_filter]
    exact congrArg answerTo (foldl_given Call.inner? (fun _ => filterRefusal?)
      (fun part call _ => part.filter_refusal?_perform call) condition calls)
  refused _ _ := perform_refused

end Condition

/-! ## Named trees -/

namespace Tree

/-- The answer to a call, and the tree afterwards. -/
def perform (tree : Tree G) : Node.Call G → Except AssemblyError Unit × Tree G
  | .addChild child => attempt tree (tree.addChild child)
  | .setCondition condition => (.ok (), tree.setCondition condition)

/-- The tree after calls. -/
def performAll (tree : Tree G) (calls : List (Node.Call G)) : Tree G :=
  calls.foldl (fun tree call => (tree.perform call).2) tree

/-- A tree answers as the decorator that it is, and becomes what that becomes. -/
theorem perform_to_node (tree : Tree G) (call : Node.Call G) :
    tree.toNode.perform call = ((tree.perform call).1, (tree.perform call).2.toNode) := by
  obtain ⟨head, name, child⟩ := tree
  cases call with
  | setCondition condition => rfl
  | addChild given => cases child <;> rfl

/-- The node of a tree takes calls as any other node does. -/
theorem perform_all_to_node (tree : Tree G) (calls : List (Node.Call G)) :
    (tree.performAll calls).toNode = tree.toNode.performAll calls := by
  induction calls generalizing tree with
  | nil => rfl
  | cons call rest ih =>
      rw [performAll, List.foldl_cons, ← performAll, ih, Node.performAll, Node.performAll,
        List.foldl_cons, perform_to_node]

/-- A call that is refused leaves the tree as it was. -/
theorem perform_refused {tree : Tree G} {call : Node.Call G} {error : AssemblyError}
    (h : (tree.perform call).1 = .error error) : (tree.perform call).2 = tree := by
  cases call with
  | addChild child => exact attempt_refused h
  | setCondition condition => exact nomatch h

end Tree

/-- Assembly keeps order: whatever calls are made of a part, it holds what its kind takes of the
parts that it was given, in their order; and a call that is refused leaves it as it was. A named
tree is a decorator in all this. -/
theorem assembly_keeps_order :
    (∀ (node : Node G) (calls : List (Node.Call G)),
      node.Assembled calls (node.performAll calls)) ∧
    (∀ (condition : Condition G) (calls : List (Condition.Call G)),
      condition.Assembled calls (condition.performAll calls)) ∧
    ∀ (tree : Tree G) (calls : List (Node.Call G)),
      let after := tree.performAll calls
      tree.toNode.Assembled calls after.toNode ∧
        (∀ call, (after.perform call).1 = (after.toNode.perform call).1) ∧
        ∀ call error, (after.perform call).1 = .error error → (after.perform call).2 = after := by
  refine ⟨Node.perform_all_assembled, Condition.perform_all_assembled, fun tree calls => ?_⟩
  refine ⟨?_, fun call => ?_, fun _ _ => Tree.perform_refused⟩
  · rw [Tree.perform_all_to_node]
    exact tree.toNode.perform_all_assembled calls
  · rw [Tree.perform_to_node]

/-- A decorator keeps its first child and its last condition, and goes on refusing children. -/
theorem assembly_keeps_order_inverter :
    let leaf (id : Nat) : Node Demo.game := .timed ⟨⟨id⟩, none⟩ 0 false
    let inverter : Node Demo.game := .decorator ⟨⟨0⟩, none⟩ .inverter none
    let after := inverter.performAll [.addChild (leaf 1), .setCondition .always,
      .addChild (leaf 2), .setCondition .never]
    after.children = [leaf 1] ∧ after.gate = some .never ∧
      (after.perform (.addChild (leaf 3))).1 = .error (.childAlreadySet "Inverter") ∧
      (after.perform (.addChild (leaf 3))).2 = after := by
  intro leaf inverter after
  have hafter := assembly_keeps_order.1 inverter [.addChild (leaf 1), .setCondition .always,
    .addChild (leaf 2), .setCondition .never]
  have hanswer := hafter.addChild (leaf 3)
  exact ⟨hafter.children, hafter.gate, hanswer, hafter.refused _ _ hanswer⟩

end BehaviorTree
