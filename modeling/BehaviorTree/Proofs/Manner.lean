import BehaviorTree.Agent.Execute
import BehaviorTree.Proofs.Passage

/-!
# Manners

A `Manner` is a property of things done with an agent that holds of nothing done and of one
thing done after another: that a passage is taken, or that two agents who agree go on agreeing.
The parts of the engine that only put plays together are treated here once for every manner:
gates, walks through children, and the child of a decorator.
-/

namespace BehaviorTree

variable {G : Game}

/-- A property of things done with an agent that holds of nothing done and of one thing done
after another. -/
structure Manner (G : Game) where
  holds : {α : Type} → Play G α → Prop
  done : ∀ {α : Type} (value : α), holds (pure value : Play G α)
  next : ∀ {α β : Type} {first : Play G α} {second : α → Play G β},
    holds first → (∀ value, holds (second value)) → holds (first >>= second)

/-- Taking a passage. -/
def Passage.manner (passage : Passage G) : Manner G where
  holds play := play.Keeps passage
  done := Play.keeps_pure
  next := Play.Keeps.bind

namespace Manner

variable {manner : Manner G} {α : Type}

/-- A choice between two plays has a manner that both have. -/
theorem ite {condition : Prop} [Decidable condition] {yes no : Play G α}
    (hyes : manner.holds yes) (hno : manner.holds no) :
    manner.holds (if condition then yes else no) := by
  split
  · exact hyes
  · exact hno

end Manner

/-! ## Gates -/

namespace Condition

mutual

/-- The filters that occur in a condition. -/
def filters : Condition G → List (Filter G)
  | always | never | game _ _ => []
  | conjunction conditions | disjunction conditions => filtersAll conditions
  | negation inner => filtersInner inner
  | selection filter => filter.toList

/-- The filters that occur in some conditions. -/
def filtersAll : List (Condition G) → List (Filter G)
  | [] => []
  | condition :: rest => filters condition ++ filtersAll rest

/-- The filters that occur in an inner condition, if there is one. -/
def filtersInner : Option (Condition G) → List (Filter G)
  | none => []
  | some condition => filters condition

end

end Condition

/-- The filters that occur in the gate of a node. -/
def Node.filters (node : Node G) : List (Filter G) := node.gate.toList.flatMap Condition.filters

variable {rules : Rules G} {kept : NodeId → Bool} {elapsed : Nat}

namespace Manner

/-- A manner in which a node asks its questions, but for the filters in them. -/
structure Asks (manner : Manner G) (rules : Rules G) (node : Node G) : Prop where
  test : ∀ test, manner.holds (rules.test test node)
  selected : manner.holds (Play.look fun agent => !agent.selection.isEmpty)
  tested : ∀ name holds, manner.holds (Play.note (.tested node.id name holds))
  report : ∀ diagnostic, manner.holds (Play.report diagnostic)

variable (manner : Manner G) {node : Node G}

/-- A question has the manner of what it asks. -/
theorem noted (h : manner.Asks rules node) (name : String) {holds : Play G Bool}
    (hholds : manner.holds holds) : manner.holds (Condition.noted node name holds) :=
  manner.next hholds fun answer =>
    manner.next (h.tested name answer) fun _ => manner.done answer

/-- The question for a selection has the manner of its filter. -/
theorem any_selected (h : manner.Asks rules node) {filter : Option (Filter G)}
    (hfilter : ∀ inner ∈ filter, manner.holds (inner.run rules)) :
    manner.holds (Condition.anySelected rules filter) := by
  cases filter with
  | none => exact manner.next (manner.done ()) fun _ => h.selected
  | some inner => exact manner.next (hfilter inner rfl) fun _ => h.selected

mutual

/-- A condition is evaluated in the manner of its questions and its filters. -/
theorem evaluate (h : manner.Asks rules node) : ∀ condition : Condition G,
    (∀ filter ∈ condition.filters, manner.holds (filter.run rules)) →
      manner.holds (condition.evaluate rules node)
  | .always, _ => manner.noted h "True" (manner.done true)
  | .never, _ => manner.noted h "False" (manner.done false)
  | .conjunction conditions, hfilters => evaluate_all h conditions hfilters
  | .disjunction conditions, hfilters => evaluate_any h conditions hfilters
  | .negation inner, hfilters => evaluate_not h inner hfilters
  | .selection _, hfilters => manner.noted h "Filter"
      (manner.any_selected h fun filter hfilter => hfilters filter (Option.mem_toList.2 hfilter))
  | .game name test, _ => manner.noted h name (h.test test)

/-- The members of a conjunction are evaluated in the manner of their questions and filters. -/
theorem evaluate_all (h : manner.Asks rules node) : ∀ conditions : List (Condition G),
    (∀ filter ∈ Condition.filtersAll conditions, manner.holds (filter.run rules)) →
      manner.holds (Condition.evaluateAll rules node conditions)
  | [], _ => manner.done true
  | condition :: rest, hfilters =>
      manner.next
        (evaluate h condition fun filter hfilter =>
          hfilters filter (List.mem_append_left _ hfilter))
        fun _ => Manner.ite
          (evaluate_all h rest fun filter hfilter =>
            hfilters filter (List.mem_append_right _ hfilter))
          (manner.done false)

/-- The members of a disjunction are evaluated in the manner of their questions and filters. -/
theorem evaluate_any (h : manner.Asks rules node) : ∀ conditions : List (Condition G),
    (∀ filter ∈ Condition.filtersAll conditions, manner.holds (filter.run rules)) →
      manner.holds (Condition.evaluateAny rules node conditions)
  | [], _ => manner.done false
  | condition :: rest, hfilters =>
      manner.next
        (evaluate h condition fun filter hfilter =>
          hfilters filter (List.mem_append_left _ hfilter))
        fun _ => Manner.ite (manner.done true)
          (evaluate_any h rest fun filter hfilter =>
            hfilters filter (List.mem_append_right _ hfilter))

/-- The inside of a negation is evaluated in the manner of its questions and filters. -/
theorem evaluate_not (h : manner.Asks rules node) : ∀ inner : Option (Condition G),
    (∀ filter ∈ Condition.filtersInner inner, manner.holds (filter.run rules)) →
      manner.holds (Condition.evaluateNot rules node inner)
  | none, _ => manner.next (h.report _) fun _ => manner.done false
  | some condition, hfilters =>
      manner.next (evaluate h condition hfilters) fun holds => manner.done (!holds)

end

/-- A gate is asked in a manner if its questions and filters are. -/
theorem open_gate (h : manner.Asks rules node)
    (hfilters : ∀ filter ∈ node.filters, manner.holds (filter.run rules)) :
    manner.holds (node.open rules) := by
  unfold Node.open
  cases hgate : node.gate with
  | none => exact manner.done true
  | some condition =>
      refine manner.evaluate h condition fun filter hfilter => hfilters filter ?_
      simpa [Node.filters, hgate] using hfilter

/-! ## Children -/

/-- A walk through children has the manner of their executions. -/
theorem walk {advance : Status} {children : List (Node G)}
    (h : ∀ child ∈ children, manner.holds (child.execute rules kept elapsed))
    (skip index : Nat) :
    manner.holds (Node.walk rules kept elapsed advance skip index children) := by
  induction children generalizing skip index with
  | nil => cases skip <;> exact manner.done none
  | cons child rest ih =>
      have hrest := ih fun node hnode => h node (List.mem_cons_of_mem child hnode)
      cases skip with
      | succ skip => exact hrest skip (index + 1)
      | zero =>
          exact manner.next (h child List.mem_cons_self) fun status =>
            Manner.ite (hrest 0 (index + 1)) (manner.done (some (index, status)))

/-- The execution of all children has the manner of each. -/
theorem execute_all {children : List (Node G)}
    (h : ∀ child ∈ children, manner.holds (child.execute rules kept elapsed)) :
    manner.holds (Node.executeAll rules kept elapsed children) := by
  induction children with
  | nil => exact manner.done false
  | cons child rest ih =>
      have hrest := ih fun node hnode => h node (List.mem_cons_of_mem child hnode)
      exact manner.next (h child List.mem_cons_self) fun status =>
        manner.next hrest fun running => manner.done (status.isRunning || running)

/-- The execution of a decorator's child has the manner of that child, if there is one. -/
theorem execute_child {child : Option (Node G)}
    (h : ∀ node ∈ child, manner.holds (node.execute rules kept elapsed)) :
    manner.holds (Node.executeChild rules kept elapsed child) := by
  cases child with
  | none => exact manner.done none
  | some node => exact manner.next (h node rfl) fun status => manner.done (some status)

end Manner

end BehaviorTree
