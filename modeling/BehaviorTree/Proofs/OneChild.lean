import BehaviorTree.Proofs.Execution

/-!
# One child among others

A relation that a composition of executions need not carry over may still hold of an
execution of a node when at most one of the node's children departs from a passage:
`Node.execute_does` carries such a relation from the children to the node.
-/

namespace BehaviorTree

variable {G : Game} {α β : Type}

/-- A relation that a passage may come before and after. -/
structure Passage.Flanks (passage : Passage G)
    (relation : Agent G → List Note → Agent G → Prop) : Prop where
  of_allows : ∀ {before after : Agent G} {notes : List Note},
    passage.allows before notes after → relation before notes after
  ahead : ∀ {first second third : Agent G} {early late : List Note},
    passage.allows first early second → relation second late third →
      relation first (early ++ late) third
  behind : ∀ {first second third : Agent G} {early late : List Note},
    relation first early second → passage.allows second late third →
      relation first (early ++ late) third

/-- Something done with an agent stands in a relation to it, whatever the agent. -/
def Play.Does (relation : Agent G → List Note → Agent G → Prop) (play : Play G α) : Prop :=
  ∀ agent, relation agent (play agent).notes (play agent).agent

namespace Play

variable {passage : Passage G} {relation : Agent G → List Note → Agent G → Prop}

/-- What keeps to a passage stands in every relation that the passage may come before and after. -/
theorem Keeps.does {play : Play G α} (h : play.Keeps passage) (hflanks : passage.Flanks relation) :
    play.Does relation := fun agent => hflanks.of_allows (h agent)

/-- A relation holds of a play that is followed by the passage. -/
theorem Does.bind_keeps {first : Play G α} {next : α → Play G β} (hfirst : first.Does relation)
    (hnext : ∀ value, (next value).Keeps passage) (hflanks : passage.Flanks relation) :
    (first >>= next).Does relation :=
  fun agent => hflanks.behind (hfirst agent) (hnext _ _)

/-- A relation holds of a play that comes after the passage. -/
theorem Keeps.bind_does {first : Play G α} {next : α → Play G β} (hfirst : first.Keeps passage)
    (hnext : ∀ value, (next value).Does relation) (hflanks : passage.Flanks relation) :
    (first >>= next).Does relation :=
  fun agent => hflanks.ahead (hfirst agent) (hnext _ _)

/-- A choice between two plays stands in a relation if both do. -/
theorem Does.ite {condition : Prop} [Decidable condition] {yes no : Play G α}
    (hyes : yes.Does relation) (hno : no.Does relation) :
    (if condition then yes else no).Does relation := by
  split
  · exact hyes
  · exact hno

end Play

namespace Node

variable {rules : Rules G} {kept : NodeId → Bool} {elapsed : Nat} {passage : Passage G}
  {relation : Agent G → List Note → Agent G → Prop}

/-- Of the nodes of a list at most one departs from a passage, and that one stands in a
relation. -/
structure AtMostOne (rules : Rules G) (kept : NodeId → Bool) (elapsed : Nat)
    (passage : Passage G) (relation : Agent G → List Note → Agent G → Prop)
    (nodes : List (Node G)) : Prop where
  does : ∀ node ∈ nodes, (node.execute rules kept elapsed).Does relation
  others : nodes.Pairwise fun left right =>
    (left.execute rules kept elapsed).Keeps passage ∨
      (right.execute rules kept elapsed).Keeps passage

/-- If at most one node of a list departs from the passage, at most one of the others does. -/
theorem AtMostOne.tail {node : Node G} {rest : List (Node G)}
    (h : AtMostOne rules kept elapsed passage relation (node :: rest)) :
    AtMostOne rules kept elapsed passage relation rest where
  does other hother := h.does other (List.mem_cons_of_mem node hother)
  others := (List.pairwise_cons.1 h.others).2

/-- Either the first node takes the passage, or all later ones do. -/
theorem AtMostOne.head_or {node : Node G} {rest : List (Node G)}
    (h : AtMostOne rules kept elapsed passage relation (node :: rest)) :
    (node.execute rules kept elapsed).Keeps passage ∨
      ∀ other ∈ rest, (other.execute rules kept elapsed).Keeps passage := by
  by_cases hnode : (node.execute rules kept elapsed).Keeps passage
  · exact .inl hnode
  · exact .inr fun other hother =>
      ((List.pairwise_cons.1 h.others).1 other hother).resolve_left hnode

/-- A walk through children of which at most one departs from the passage stands in the relation. -/
theorem walk_does (hflanks : passage.Flanks relation) {advance : Status}
    {children : List (Node G)} (h : AtMostOne rules kept elapsed passage relation children)
    (skip index : Nat) :
    (walk rules kept elapsed advance skip index children).Does relation := by
  induction children generalizing skip index with
  | nil => cases skip <;> exact (Play.keeps_pure none).does hflanks
  | cons child rest ih =>
      have hstop : ∀ status : Status,
          (pure (some (index, status)) : Play G (Option (Nat × Status))).Keeps passage :=
        fun status => Play.keeps_pure (some (index, status))
      cases skip with
      | succ skip => exact ih h.tail skip (index + 1)
      | zero =>
          rcases h.head_or with hchild | hrest
          · exact hchild.bind_does
              (fun status => (ih h.tail 0 (index + 1)).ite ((hstop status).does hflanks)) hflanks
          · exact (h.does child List.mem_cons_self).bind_keeps
              (fun status => (walk_keeps hrest 0 (index + 1)).ite (hstop status)) hflanks

/-- The execution of children of which at most one departs from the passage stands in the relation.
-/
theorem execute_all_does (hflanks : passage.Flanks relation) {children : List (Node G)}
    (h : AtMostOne rules kept elapsed passage relation children) :
    (executeAll rules kept elapsed children).Does relation := by
  induction children with
  | nil => exact (Play.keeps_pure false).does hflanks
  | cons child rest ih =>
      have hanswer : ∀ status running : Bool,
          (pure (status || running) : Play G Bool).Keeps passage :=
        fun status running => Play.keeps_pure (status || running)
      rcases h.head_or with hchild | hrest
      · exact hchild.bind_does
          (fun status => (ih h.tail).bind_keeps (hanswer status.isRunning) hflanks) hflanks
      · exact (h.does child List.mem_cons_self).bind_keeps
          (fun status => (execute_all_keeps hrest).bind (hanswer status.isRunning)) hflanks

/-- The execution of a decorator's child stands in the relation if that of the child does. -/
theorem execute_child_does (hflanks : passage.Flanks relation) {child : Option (Node G)}
    (h : AtMostOne rules kept elapsed passage relation child.toList) :
    (executeChild rules kept elapsed child).Does relation := by
  cases child with
  | none => exact (Play.keeps_pure none).does hflanks
  | some node =>
      exact (h.does node (by simp)).bind_keeps (fun status => Play.keeps_pure (some status)) hflanks

/-- A decorator stands in the relation if the tick of its child does. -/
theorem run_decorator_does {node : Node G} (hflanks : passage.Flanks relation)
    (h : passage.Tends node.id) (kind : DecoratorKind) {tick : Play G (Option Status)}
    (htick : tick.Does relation) : (runDecorator node kind tick).Does relation := by
  have hresult := htick.bind_keeps (fun result => answer_child_keeps h kind result) hflanks
  rw [run_decorator_eq]
  exact (spent_keeps kind).bind_does
    (fun isSpent => ((Play.keeps_pure _).does hflanks).ite hresult) hflanks

/-- What a node above others does stands in the relation if at most one child departs. -/
theorem logic_does {node : Node G} (hinner : node.family ≠ .action)
    (hflanks : passage.Flanks relation) (h : passage.Tends node.id)
    (hchildren : AtMostOne rules kept elapsed passage relation node.children) :
    (node.logic rules kept elapsed).Does relation := by
  cases node with
  | composite head kind children =>
      have hwalk : ∀ advance : Status, (do
          let start ← Play.look fun agent => agent.resumeIndexOf head.id
          let stop ← walk rules kept elapsed advance start 0 children
          settleWalk head.id advance stop).Does relation := fun advance =>
        (Play.keeps_look _).bind_does (fun start =>
          (walk_does hflanks hchildren start 0).bind_keeps
            (fun stop => settle_walk_keeps h advance stop) hflanks) hflanks
      cases kind with
      | sequence => exact hwalk .finished
      | priority => exact hwalk .failed
      | parallel =>
          exact (execute_all_does hflanks hchildren).bind_keeps
            (fun running => Play.keeps_pure _) hflanks
  | decorator head kind child =>
      exact run_decorator_does hflanks h kind (execute_child_does hflanks hchildren)
  | timed | action => exact absurd rfl hinner

/-- A relation in which at most one child of a composite or decorator stands, the others
taking a passage that the node itself serves, is a relation of the node. -/
theorem execute_does (hrules : rules.Modest) {node : Node G} (hinner : node.family ≠ .action)
    (hflanks : passage.Flanks relation) (h : passage.Serves node.id)
    (hchildren : AtMostOne rules kept elapsed passage relation node.children) :
    (node.execute rules kept elapsed).Does relation := by
  intro agent
  have happroach :=
    approach_keeps (node.open_keeps hrules h.toGates) (entry_keeps hinner h.toTends) agent
  cases hopen : (node.approach rules agent).value with
  | false =>
      rw [execute_inner_closed hinner hopen]
      exact hflanks.of_allows (passage.join happroach (h.conclude _ _))
  | true =>
      have hlogic := logic_does hinner hflanks h.toTends hchildren (node.approach rules agent).agent
      rw [execute_inner_open hinner hopen]
      exact hflanks.behind (hflanks.ahead happroach hlogic) (h.conclude _ _)

end Node

end BehaviorTree
