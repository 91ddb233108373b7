import BehaviorTree.Proofs.Renamed
import BehaviorTree.Proofs.Run

/-!
# Two runs side by side

What one agent does with a tree and another one with a renamed copy. A relation between agents is
a `Correspondence` under a renaming if related agents read the same entries under corresponding
identities and stay related when the engine writes such entries on both sides.

`Play.Pairs` says that two plays give the same value to related agents and leave them related. It
is carried along compositions, so the two executions are a pair (`Node.execute_pairs`) once the
rules are, and the filters and the handling of the current action at the nodes of the tree. The
same holds of the parts of an update that executes something (`Agent.update_pairs`).
-/

namespace BehaviorTree

variable {G : Game} {α β : Type} {relation : Agent G → Agent G → Prop}

/-! ## Pairs of plays -/

namespace Play

/-- From related agents two plays give the same value and leave related agents. -/
def Pairs (relation : Agent G → Agent G → Prop) (one other : Play G α) : Prop :=
  ∀ first second, relation first second →
    (other second).value = (one first).value ∧ relation (one first).agent (other second).agent

/-- Two plays that answer alike without looking at an agent are a pair. -/
theorem pairs_pure (value : α) : (pure value : Play G α).Pairs relation (pure value) :=
  fun _ _ h => ⟨rfl, h⟩

/-- Plays that are continued by pairs are a pair if they were one. -/
theorem Pairs.bind {one other : Play G α} {next next' : α → Play G β}
    (h : one.Pairs relation other) (hnext : ∀ value, (next value).Pairs relation (next' value)) :
    (one >>= next).Pairs relation (other >>= next') := by
  intro first second hrelated
  obtain ⟨hvalue, hagents⟩ := h first second hrelated
  rw [bind_apply, bind_apply, hvalue]
  exact hnext _ _ _ hagents

/-- A choice between two pairs is a pair. -/
theorem Pairs.ite {condition : Prop} [Decidable condition] {yes yes' no no' : Play G α}
    (hyes : yes.Pairs relation yes') (hno : no.Pairs relation no') :
    (if condition then yes else no).Pairs relation (if condition then yes' else no') := by
  split
  · exact hyes
  · exact hno

/-- To look at what is the same of related agents is a pair. -/
theorem pairs_look {view view' : Agent G → α}
    (h : ∀ {one other}, relation one other → view' other = view one) :
    (look view).Pairs relation (look view') := fun _ _ hrelated => ⟨h hrelated, hrelated⟩

/-- What follows a look may depend on the agents that were looked at. -/
theorem pairs_look_bind {next next' : Agent G → Play G β}
    (h : ∀ {one other}, relation one other → (next one).Pairs relation (next' other)) :
    (look id >>= next).Pairs relation (look id >>= next') :=
  fun first second hrelated => h hrelated first second hrelated

/-- Changes that related agents may both undergo are a pair. -/
theorem pairs_change {step step' : Agent G → Agent G}
    (h : ∀ {one other}, relation one other → relation (step one) (step' other)) :
    (change step).Pairs relation (change step') := fun _ _ hrelated => ⟨rfl, h hrelated⟩

/-- Two notes are a pair, whatever they say. -/
theorem pairs_note (what what' : Note) : (note (G := G) what).Pairs relation (note what') :=
  fun _ _ hrelated => ⟨rfl, hrelated⟩

end Play

/-- The kinds of values that the engine keeps under identities of nodes. -/
def Slot.IsNodal : Slot G → Prop
  | resumeIndex | execCount | timer | status | completed => True
  | currentAction | game _ => False

/-- A relation between agents under which the engine reads the same entries on both sides, and
which its writes preserve. -/
structure Correspondence (f : NodeId → NodeId) (relation : Agent G → Agent G → Prop) : Prop where
  status : ∀ {one other}, relation one other → other.status = one.status
  selection : ∀ {one other}, relation one other → other.selection = one.selection
  entry : ∀ {one other}, relation one other → ∀ slot : Slot G, slot.IsNodal → ∀ id : NodeId,
    other.context.get? slot (f id).raw = one.context.get? slot id.raw
  withStatus : ∀ {one other}, relation one other → ∀ status,
    relation (one.withStatus status) (other.withStatus status)
  select : ∀ {one other}, relation one other → ∀ change,
    relation (one.select change) (other.select change)
  remember : ∀ {one other}, relation one other → ∀ slot : Slot G, slot.IsNodal →
    ∀ (id : NodeId) (value : slot.Value),
      relation (one.remember slot id.raw value) (other.remember slot (f id).raw value)
  forget : ∀ {one other}, relation one other → ∀ slot : Slot G, slot.IsNodal → ∀ id : NodeId,
    relation (one.forget slot id.raw) (other.forget slot (f id).raw)
  record : ∀ {one other}, relation one other → ∀ id status,
    relation (one.record id status) (other.record (f id) status)
  release : ∀ {one other}, relation one other → ∀ id,
    relation (one.release id) (other.release (f id))

/-- The logic of a game does the same for related agents. -/
structure Rules.Pairs (rules : Rules G) (f : NodeId → NodeId)
    (relation : Agent G → Agent G → Prop) : Prop where
  enter : ∀ leaf id, (rules.enter leaf id).Pairs relation (rules.enter leaf (f id))
  act : ∀ leaf id elapsed,
    (rules.act leaf id elapsed).Pairs relation (rules.act leaf (f id) elapsed)
  test : ∀ test node, (rules.test test node).Pairs relation (rules.test test (node.renamed f))
  sift : ∀ sieve, (rules.sift sieve).Pairs relation (rules.sift sieve)

variable {rules : Rules G} {f : NodeId → NodeId}

namespace Correspondence

variable {one other : Agent G}

/-- Related agents have the same status of a node and of its copy. -/
theorem status_of_eq (hf : Correspondence f relation) (h : relation one other) (id : NodeId) :
    other.statusOf (f id) = one.statusOf id :=
  congrArg (Option.getD · Status.unknown) (hf.entry h .status trivial id)

/-- Related agents have the same position stored for a node and for its copy. -/
theorem resume_index_of_eq (hf : Correspondence f relation) (h : relation one other) (id : NodeId) :
    other.resumeIndexOf (f id) = one.resumeIndexOf id :=
  congrArg (Option.getD · (0 : Nat)) (hf.entry h .resumeIndex trivial id)

/-- Related agents have counted the same for a node and for its copy. -/
theorem exec_count_of_eq (hf : Correspondence f relation) (h : relation one other) (id : NodeId) :
    other.execCountOf (f id) = one.execCountOf id :=
  congrArg (Option.getD · (0 : Nat)) (hf.entry h .execCount trivial id)

/-- Related agents have the same countdown for a node and for its copy. -/
theorem timer_of_eq (hf : Correspondence f relation) (h : relation one other) (id : NodeId) :
    other.timerOf (f id) = one.timerOf id :=
  congrArg (Option.getD · Timer.unarmed) (hf.entry h .timer trivial id)

/-- Agents that settle the same result of a node and of its copy stay related. -/
theorem settle (hf : Correspondence f relation) (h : relation one other) (id : NodeId)
    (status : Status) : relation (one.settle id status) (other.settle (f id) status) :=
  hf.record (hf.remember h .status trivial id status) id status

end Correspondence

/-! ## Gates -/

/-- A filter that does not look at the entity pairs with itself. -/
theorem Filter.run_pairs (hf : Correspondence f relation) (hrules : rules.Pairs f relation)
    {filter : Filter G} (h : filter ≠ .exclude) :
    (filter.run rules).Pairs relation (filter.run rules) := by
  cases filter with
  | clear => exact Play.pairs_change fun hrelated => hf.select hrelated fun _ => []
  | unique => exact Play.pairs_change fun hrelated => hf.select hrelated Selection.unique
  | first count => exact Play.pairs_change fun hrelated => hf.select hrelated (List.take count)
  | exclude => exact absurd rfl h
  | game name sieve => exact hrules.sift sieve

namespace Condition

variable {node : Node G}

/-- A question asked of a node and of its copy is a pair if what is asked is one. -/
theorem noted_pairs (name : String) {holds holds' : Play G Bool}
    (h : holds.Pairs relation holds') :
    (noted node name holds).Pairs relation (noted (node.renamed f) name holds') :=
  h.bind fun answer => (Play.pairs_note _ _).bind fun _ => Play.pairs_pure answer

/-- The question for a selection is a pair if its filter is one. -/
theorem any_selected_pairs (hf : Correspondence f relation) {filter : Option (Filter G)}
    (hfilter : ∀ inner ∈ filter, (inner.run rules).Pairs relation (inner.run rules)) :
    (anySelected rules filter).Pairs relation (anySelected rules filter) := by
  have hlook : (Play.look fun agent : Agent G => !agent.selection.isEmpty).Pairs relation
      (Play.look fun agent => !agent.selection.isEmpty) :=
    Play.pairs_look fun hrelated => by rw [hf.selection hrelated]
  cases filter with
  | none => exact (Play.pairs_pure ()).bind fun _ => hlook
  | some inner => exact (hfilter inner rfl).bind fun _ => hlook

mutual

/-- A condition at a node and at its copy is a pair if its filters are pairs. -/
theorem evaluate_pairs (hf : Correspondence f relation) (hrules : rules.Pairs f relation) :
    ∀ condition : Condition G,
      (∀ filter ∈ condition.filters, (filter.run rules).Pairs relation (filter.run rules)) →
        (condition.evaluate rules node).Pairs relation (condition.evaluate rules (node.renamed f))
  | always, _ => noted_pairs "True" (Play.pairs_pure true)
  | never, _ => noted_pairs "False" (Play.pairs_pure false)
  | conjunction conditions, hfilters => evaluate_all_pairs hf hrules conditions hfilters
  | disjunction conditions, hfilters => evaluate_any_pairs hf hrules conditions hfilters
  | negation inner, hfilters => evaluate_not_pairs hf hrules inner hfilters
  | selection _, hfilters => noted_pairs "Filter"
      (any_selected_pairs hf fun filter hfilter => hfilters filter (Option.mem_toList.2 hfilter))
  | game name test, _ => noted_pairs name (hrules.test test node)

/-- The members of a conjunction at a node and at its copy are a pair if their filters are. -/
theorem evaluate_all_pairs (hf : Correspondence f relation) (hrules : rules.Pairs f relation) :
    ∀ conditions : List (Condition G),
      (∀ filter ∈ filtersAll conditions, (filter.run rules).Pairs relation (filter.run rules)) →
        (evaluateAll rules node conditions).Pairs relation
          (evaluateAll rules (node.renamed f) conditions)
  | [], _ => Play.pairs_pure true
  | condition :: rest, hfilters => by
      obtain ⟨hfirst, hrest⟩ := List.forall_mem_append.1 hfilters
      exact (evaluate_pairs hf hrules condition hfirst).bind fun _ =>
        (evaluate_all_pairs hf hrules rest hrest).ite (Play.pairs_pure false)

/-- The members of a disjunction at a node and at its copy are a pair if their filters are. -/
theorem evaluate_any_pairs (hf : Correspondence f relation) (hrules : rules.Pairs f relation) :
    ∀ conditions : List (Condition G),
      (∀ filter ∈ filtersAll conditions, (filter.run rules).Pairs relation (filter.run rules)) →
        (evaluateAny rules node conditions).Pairs relation
          (evaluateAny rules (node.renamed f) conditions)
  | [], _ => Play.pairs_pure false
  | condition :: rest, hfilters => by
      obtain ⟨hfirst, hrest⟩ := List.forall_mem_append.1 hfilters
      exact (evaluate_pairs hf hrules condition hfirst).bind fun _ =>
        (Play.pairs_pure true).ite (evaluate_any_pairs hf hrules rest hrest)

/-- The inside of a negation at a node and at its copy is a pair if its filters are. -/
theorem evaluate_not_pairs (hf : Correspondence f relation) (hrules : rules.Pairs f relation) :
    ∀ inner : Option (Condition G),
      (∀ filter ∈ filtersInner inner, (filter.run rules).Pairs relation (filter.run rules)) →
        (evaluateNot rules node inner).Pairs relation (evaluateNot rules (node.renamed f) inner)
  | none, _ => (Play.pairs_note _ _).bind fun _ => Play.pairs_pure false
  | some condition, hfilters =>
      (evaluate_pairs hf hrules condition hfilters).bind fun holds => Play.pairs_pure (!holds)

end

end Condition

/-! ## Executions -/

namespace Node

variable {kept kept' : NodeId → Bool} {elapsed : Nat}

/-- The gates of a node and of its copy are a pair if their filters are. -/
theorem open_pairs (hf : Correspondence f relation) (hrules : rules.Pairs f relation)
    {node : Node G}
    (hfilters : ∀ filter ∈ node.filters, (filter.run rules).Pairs relation (filter.run rules)) :
    (node.open rules).Pairs relation ((node.renamed f).open rules) := by
  unfold Node.open
  rw [gate_renamed]
  unfold filters at hfilters
  cases hgate : node.gate with
  | none => exact Play.pairs_pure true
  | some condition =>
      rw [hgate, Option.toList_some, List.flatMap_singleton] at hfilters
      exact condition.evaluate_pairs hf hrules hfilters

/-- The entries into a node and into its copy are a pair. -/
theorem entry_pairs (hf : Correspondence f relation) (hrules : rules.Pairs f relation)
    (node : Node G) : (node.entry rules).Pairs relation ((node.renamed f).entry rules) := by
  cases node with
  | composite head kind children =>
      cases kind with
      | sequence | priority =>
          exact Play.pairs_change fun h => hf.remember h .resumeIndex trivial head.id (0 : Nat)
      | parallel => exact Play.pairs_pure ()
  | decorator head kind child => exact Play.pairs_pure ()
  | timed head duration mustComplete =>
      exact (Play.pairs_change fun h =>
        hf.remember h .timer trivial head.id Timer.unarmed).bind fun _ => Play.pairs_note _ _
  | action head name mustComplete leaf =>
      exact (hrules.enter leaf head.id).bind fun _ => Play.pairs_note _ _

/-- What goes before the logic of a node and of its copy is a pair if the filters of the gate are.
-/
theorem approach_pairs (hf : Correspondence f relation) (hrules : rules.Pairs f relation)
    {node : Node G}
    (hfilters : ∀ filter ∈ node.filters, (filter.run rules).Pairs relation (filter.run rules)) :
    (node.approach rules).Pairs relation ((node.renamed f).approach rules) := by
  refine Play.Pairs.bind ?_ fun _ => node.open_pairs hf hrules hfilters
  unfold freshen
  rw [id_renamed]
  exact Play.Pairs.bind (Play.pairs_look fun h => hf.status_of_eq h node.id) fun last =>
    (Play.pairs_pure ()).ite (node.entry_pairs hf hrules)

/-- The conclusions of an execution at a node and at its copy are a pair. -/
theorem conclude_pairs (hf : Correspondence f relation) (node : Node G) (status : Status) :
    (node.conclude status).Pairs relation ((node.renamed f).conclude status) := by
  unfold conclude
  rw [id_renamed]
  exact (Play.pairs_change fun h => hf.settle h node.id status).bind fun _ =>
    (Play.pairs_note _ _).bind fun _ => Play.pairs_pure status

/-- Visits of a node and of its copy are a pair if what is run in them is one, and what follows. -/
theorem visit_pairs (hf : Correspondence f relation) (hrules : rules.Pairs f relation)
    {node : Node G}
    (hfilters : ∀ filter ∈ node.filters, (filter.run rules).Pairs relation (filter.run rules))
    {run run' : Play G Status} {after after' : Status → Play G Unit}
    (hrun : run.Pairs relation run')
    (hafter : ∀ status, (after status).Pairs relation (after' status)) :
    (node.visit rules (node.entry rules) run after).Pairs relation
      ((node.renamed f).visit rules ((node.renamed f).entry rules) run' after') := by
  rw [visit_eq, visit_eq, id_renamed, family_renamed]
  refine (approach_pairs hf hrules hfilters).bind fun isOpen => Play.Pairs.ite ?_ ?_
  · exact hrun.bind fun status => (hafter status).bind fun _ => node.conclude_pairs hf status
  · refine (Play.pairs_change fun h => ?_).bind fun _ => node.conclude_pairs hf .canNotExecute
    split
    · exact hf.release h node.id
    · exact h

/-- Walks through children and their copies are a pair if the executions of each child are. -/
theorem walk_pairs (advance : Status) {children : List (Node G)}
    (h : ∀ child ∈ children, (child.execute rules kept elapsed).Pairs relation
      ((child.renamed f).execute rules kept' elapsed)) (skip index : Nat) :
    (walk rules kept elapsed advance skip index children).Pairs relation
      (walk rules kept' elapsed advance skip index (children.map (renamed f))) := by
  induction children generalizing skip index with
  | nil => cases skip <;> exact Play.pairs_pure none
  | cons child rest ih =>
      obtain ⟨hchild, hrest⟩ := List.forall_mem_cons.1 h
      cases skip with
      | succ skip => exact ih hrest skip (index + 1)
      | zero =>
          exact hchild.bind fun status =>
            (ih hrest 0 (index + 1)).ite (Play.pairs_pure (some (index, status)))

/-- The executions of all children and of their copies are a pair if those of each are. -/
theorem execute_all_pairs {children : List (Node G)}
    (h : ∀ child ∈ children, (child.execute rules kept elapsed).Pairs relation
      ((child.renamed f).execute rules kept' elapsed)) :
    (executeAll rules kept elapsed children).Pairs relation
      (executeAll rules kept' elapsed (children.map (renamed f))) := by
  induction children with
  | nil => exact Play.pairs_pure false
  | cons child rest ih =>
      obtain ⟨hchild, hrest⟩ := List.forall_mem_cons.1 h
      exact hchild.bind fun status =>
        (ih hrest).bind fun running => Play.pairs_pure (status.isRunning || running)

/-- The executions of a decorator's child and of its copy are a pair. -/
theorem execute_child_pairs {child : Option (Node G)}
    (h : ∀ node ∈ child, (node.execute rules kept elapsed).Pairs relation
      ((node.renamed f).execute rules kept' elapsed)) :
    (executeChild rules kept elapsed child).Pairs relation
      (executeChild rules kept' elapsed (child.map (renamed f))) := by
  cases child with
  | none => exact Play.pairs_pure none
  | some node => exact (h node rfl).bind fun status => Play.pairs_pure (some status)

/-- The ends of a walk at a node and at its copy are a pair. -/
theorem settle_walk_pairs (hf : Correspondence f relation) (id : NodeId) (exhausted : Status)
    (stop : Option (Nat × Status)) :
    (settleWalk id exhausted stop).Pairs relation (settleWalk (f id) exhausted stop) := by
  rcases stop with _ | ⟨index, status⟩
  · exact (Play.pairs_change fun h => hf.forget h .resumeIndex trivial id).bind fun _ =>
      Play.pairs_pure exhausted
  · exact (Play.pairs_change fun h => hf.remember h .resumeIndex trivial id index).bind fun _ =>
      Play.pairs_pure status

/-- The questions whether a decorator and its copy are spent are a pair. -/
theorem spent_pairs (hf : Correspondence f relation) (id : NodeId) (kind : DecoratorKind) :
    (spent id kind).Pairs relation (spent (f id) kind) := by
  cases kind with
  | limit bound => exact Play.pairs_look fun h => by rw [hf.exec_count_of_eq h]
  | _ => exact Play.pairs_pure false

/-- The counts of a decorator and of its copy are a pair. -/
theorem count_child_pairs (hf : Correspondence f relation) (id : NodeId) (kind : DecoratorKind) :
    (countChild id kind).Pairs relation (countChild (f id) kind) := by
  cases kind with
  | limit bound =>
      refine Play.pairs_change fun h => ?_
      rw [hf.exec_count_of_eq h]
      exact hf.remember h .execCount trivial id _
  | _ => exact Play.pairs_pure ()

/-- The answers of a decorator and of its copy to the same result of the child are a pair. -/
theorem answer_child_pairs (hf : Correspondence f relation) (node : Node G) (kind : DecoratorKind)
    (result : Option Status) :
    (node.answerChild kind result).Pairs relation ((node.renamed f).answerChild kind result) := by
  cases result with
  | none => exact (Play.pairs_note _ _).bind fun _ => Play.pairs_pure Status.failed
  | some status =>
      unfold answerChild
      rw [id_renamed]
      exact (count_child_pairs hf node.id kind).bind fun _ => Play.pairs_pure _

/-- A timed leaf and its copy are a pair. -/
theorem run_timed_pairs (hf : Correspondence f relation) (id : NodeId) (duration : Nat) :
    (runTimed id duration elapsed).Pairs relation (runTimed (f id) duration elapsed) := by
  refine (Play.pairs_look fun h => by rw [hf.timer_of_eq h]).bind fun timer => ?_
  exact (Play.pairs_change fun h => hf.remember h .timer trivial id timer).bind fun _ =>
    Play.pairs_pure _

/-- The logic of a node pairs with that of the renamed node if the executions of children do. -/
theorem logic_pairs (hf : Correspondence f relation) (hrules : rules.Pairs f relation)
    {node : Node G} (h : ∀ child ∈ node.children, (child.execute rules kept elapsed).Pairs relation
      ((child.renamed f).execute rules kept' elapsed)) :
    (node.logic rules kept elapsed).Pairs relation
      ((node.renamed f).logic rules kept' elapsed) := by
  cases node with
  | composite head kind children =>
      rw [renamed_composite, logic, logic]
      cases kind.advance? with
      | some advance =>
          refine Play.Pairs.bind
            (Play.pairs_look fun hrelated => hf.resume_index_of_eq hrelated head.id) fun start => ?_
          exact (walk_pairs advance h start 0).bind fun stop =>
            settle_walk_pairs hf head.id advance stop
      | none => exact (execute_all_pairs h).bind fun running => Play.pairs_pure _
  | decorator head kind child =>
      rw [renamed_decorator, logic, logic, run_decorator_eq, run_decorator_eq]
      refine (spent_pairs hf head.id kind).bind fun isSpent => Play.Pairs.ite ?_ ?_
      · exact Play.pairs_pure Status.finished
      · refine (execute_child_pairs fun node hnode => h node (Option.mem_toList.2 hnode)).bind
          fun result => ?_
        rw [← renamed_decorator]
        exact answer_child_pairs hf _ kind result
  | timed head duration mustComplete =>
      exact (run_timed_pairs hf head.id duration).bind fun status =>
        (Play.pairs_note _ _).bind fun _ => Play.pairs_pure status
  | action head name mustComplete leaf =>
      exact (hrules.act leaf head.id elapsed).bind fun status =>
        (Play.pairs_note _ _).bind fun _ => Play.pairs_pure status

/-- What the execution of a node asks of a pair of runs besides the rules: that the filters in
the gates pair with themselves, and that running and ended leaves are followed up alike. -/
structure Pairable (rules : Rules G) (f : NodeId → NodeId) (relation : Agent G → Agent G → Prop)
    (kept kept' : NodeId → Bool) (node : Node G) : Prop where
  filters : ∀ filter ∈ node.filters, (filter.run rules).Pairs relation (filter.run rules)
  follow : node.family = .action → ∀ {one other}, relation one other → ∀ status,
    relation (one.follow kept node status) (other.follow kept' (node.renamed f) status)

/-- The execution of a tree pairs with that of the renamed tree. -/
theorem execute_pairs (hf : Correspondence f relation) (hrules : rules.Pairs f relation)
    {node : Node G} (h : ∀ other ∈ node.preorder, other.Pairable rules f relation kept kept') :
    (node.execute rules kept elapsed).Pairs relation
      ((node.renamed f).execute rules kept' elapsed) := by
  induction node using by_family with
  | inner node hinner ih =>
      have hchildren : ∀ child ∈ node.children, (child.execute rules kept elapsed).Pairs relation
          ((child.renamed f).execute rules kept' elapsed) := fun child hchild =>
        ih child hchild fun other hother => h other (mem_preorder.2 (.inr ⟨child, hchild, hother⟩))
      rw [execute_inner hinner, execute_inner ((family_renamed node).symm ▸ hinner)]
      exact visit_pairs hf hrules (h node node.self_mem_preorder).filters
        (logic_pairs hf hrules hchildren) fun _ => Play.pairs_pure ()
  | leaf node hleaf =>
      have hself := h node node.self_mem_preorder
      intro first second hrelated
      have hwaiting : second.waiting? (f node.id) = first.waiting? node.id :=
        hf.entry hrelated .completed trivial node.id
      rw [execute_leaf hleaf, execute_leaf ((family_renamed node).trans hleaf), id_renamed,
        hwaiting]
      -- A result waits on both sides or on neither, as it is kept under corresponding identities.
      cases first.waiting? node.id with
      | some status =>
          exact node.conclude_pairs hf status _ _ (hf.forget hrelated .completed trivial node.id)
      | none =>
          refine visit_pairs hf hrules hself.filters (logic_pairs hf hrules ?_) ?_ _ _ hrelated
          · rw [children_leaf hleaf]
            exact fun child hchild => nomatch hchild
          · exact fun status => Play.pairs_change fun h => hself.follow hleaf h status

end Node

/-! ## Updates -/

/-- The nodes of a tree are in use while an agent passes through it. -/
theorem Tree.in_use_of_mem {tree : Tree G} {node : Node G} (h : node ∈ tree.toNode.preorder)
    (kept : NodeId → Bool) : tree.inUse kept node.id = true := by
  rw [inUse, contains, Node.contains_of_mem h, Bool.or_true]

namespace Agent

variable {kept kept' : NodeId → Bool} {elapsed : Nat} {tree : Tree G} {action : Node G}

/-- A pass through a tree and one through its copy are a pair if the executions of the tops are. -/
theorem pass_pairs (hf : Correspondence f relation)
    (htree : (tree.toNode.execute rules kept elapsed).Pairs relation
      ((tree.toNode.renamed f).execute rules kept' elapsed)) :
    (pass rules kept elapsed tree).Pairs relation
      (pass rules kept' elapsed (tree.renamed f)) := by
  rw [← tree.to_node_renamed] at htree
  exact htree.bind fun status =>
    (Play.pairs_change fun h => hf.withStatus h status).bind fun _ => Play.pairs_pure status

/-- The ends of two ticks are a pair. -/
theorem finish_tick_pairs (hf : Correspondence f relation) :
    (finishTick (G := G)).Pairs relation finishTick := by
  refine Play.pairs_look_bind fun h => (Play.pairs_note _ _).bind fun _ => ?_
  rw [hf.status h]
  exact Play.pairs_pure _

/-- Updates with an action ahead of the tree are a pair if those of the tree and of the action are.
-/
theorem update_pressed_pairs (hf : Correspondence f relation)
    (htree : (tree.toNode.execute rules kept elapsed).Pairs relation
      ((tree.toNode.renamed f).execute rules kept' elapsed))
    (haction : (action.execute rules kept elapsed).Pairs relation
      ((action.renamed f).execute rules kept' elapsed)) :
    (updatePressed rules kept elapsed tree action).Pairs relation
      (updatePressed rules kept' elapsed (tree.renamed f) (action.renamed f)) := by
  unfold updatePressed
  rw [Node.id_renamed]
  refine haction.bind fun status => Play.pairs_look_bind fun _ =>
    (Play.pairs_note _ _).bind fun _ => Play.Pairs.ite ?_ ?_
  · exact (Play.pairs_change fun h => hf.withStatus h status).bind fun _ => Play.pairs_pure status
  · refine (Play.pairs_change fun h => hf.remember h .completed trivial action.id status).bind
      fun _ => (pass_pairs hf htree).bind fun _ => ?_
    exact (Play.pairs_change fun h => hf.forget h .completed trivial action.id).bind fun _ =>
      finish_tick_pairs hf

/-- Updates of related agents that run a tree and its renamed copy leave related agents, if the
pressing actions correspond and the executions are pairs. -/
theorem update_pairs (hf : Correspondence f relation) {one other : Agent G}
    (hnext : relation one.nextTick other.nextTick) (hpaused : one.paused = false)
    (hpaused' : other.paused = false) (hattached : one.behavior = some tree)
    (hattached' : other.behavior = some (tree.renamed f))
    (hpressing : other.pressingAction? kept' = (one.pressingAction? kept).map (Node.renamed f))
    (htree : (tree.toNode.execute rules (tree.inUse kept) elapsed).Pairs relation
      ((tree.toNode.renamed f).execute rules ((tree.renamed f).inUse kept') elapsed))
    (haction : ∀ action ∈ one.pressingAction? kept,
      (action.execute rules (tree.inUse kept) elapsed).Pairs relation
        ((action.renamed f).execute rules ((tree.renamed f).inUse kept') elapsed)) :
    (Agent.update rules kept' elapsed other).value =
        (Agent.update rules kept elapsed one).value ∧
      relation (Agent.update rules kept elapsed one).agent
        (Agent.update rules kept' elapsed other).agent := by
  rw [update_attached hpaused hattached, update_attached hpaused' hattached', hpressing]
  cases hone : one.pressingAction? kept with
  | none => exact ((pass_pairs hf htree).bind fun _ => finish_tick_pairs hf) _ _ hnext
  | some action => exact update_pressed_pairs hf htree (haction action hone) _ _ hnext

end Agent

end BehaviorTree
