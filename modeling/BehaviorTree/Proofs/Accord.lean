import BehaviorTree.Proofs.Likeness
import BehaviorTree.Proofs.Run
import BehaviorTree.Proofs.Visits

/-!
# Runs in accord

Two plays are in accord under a relation between agents if from related agents both give the same
value, make the same calls and leave related agents (`Play.Accords`). Accord is carried along
compositions; `Manner.accord` says so of one play that is in accord with itself.

The relation has to be a `Concord` at the nodes that are executed: the engine reads the same there
on both sides, and what it writes keeps agents related. `Node.execute_accords` carries accord to
the execution of a node with different surroundings on the two sides; `Node.composite_accords` and
`Node.decorator_accords` do so for nodes that differ in their children.

Two nodes may do the same only as long as some results of executions do not come up. For them accord
is asked of the runs on one side in which every execution is fair (`Play.AccordsWhile`).
-/

namespace BehaviorTree

variable {G : Game} {α β : Type} {relation : Agent G → Agent G → Prop}

/-! ## Plays in accord -/

/-- From related agents two plays give the same value, make the same calls and leave related
agents. -/
def Play.Accords (relation : Agent G → Agent G → Prop) (one other : Play G α) : Prop :=
  ∀ first second, relation first second →
    (other second).value = (one first).value ∧
      calls (other second).notes = calls (one first).notes ∧
      relation (one first).agent (other second).agent

namespace Play

/-- Values that are the same are in accord under every relation. -/
theorem accords_pure (value : α) : (pure value : Play G α).Accords relation (pure value) :=
  fun _ _ h => ⟨rfl, rfl, h⟩

/-- Plays one after the other are in accord if the first ones are and what follows is for every
value. -/
theorem Accords.bind {one other : Play G α} {next next' : α → Play G β}
    (h : one.Accords relation other)
    (hnext : ∀ value, (next value).Accords relation (next' value)) :
    (one >>= next).Accords relation (other >>= next') := by
  intro first second hrelated
  obtain ⟨hvalue, hcalls, hagents⟩ := h first second hrelated
  obtain ⟨hvalue', hcalls', hagents'⟩ := hnext _ _ _ hagents
  rw [bind_apply, bind_apply, hvalue]
  refine ⟨hvalue', ?_, hagents'⟩
  rw [calls_append, calls_append, hcalls, hcalls']

/-- Looks are in accord if they see the same in related agents. -/
theorem accords_look {view view' : Agent G → α}
    (h : ∀ {one other}, relation one other → view' other = view one) :
    (look view).Accords relation (look view') := fun _ _ hrelated => ⟨h hrelated, rfl, hrelated⟩

/-- Changes are in accord if they keep agents related. -/
theorem accords_change {step step' : Agent G → Agent G}
    (h : ∀ {one other}, relation one other → relation (step one) (step' other)) :
    (change step).Accords relation (change step') := fun _ _ hrelated => ⟨rfl, rfl, h hrelated⟩

/-- What follows a look may depend on the agents that were looked at. -/
theorem accords_look_bind {next next' : Agent G → Play G α}
    (h : ∀ {one other}, relation one other → (next one).Accords relation (next' other)) :
    (look id >>= next).Accords relation (look id >>= next') :=
  fun first second hrelated => h hrelated first second hrelated

/-- The same note on both sides is in accord. -/
theorem accords_note (what : Note) : (note (G := G) what).Accords relation (note what) :=
  fun _ _ hrelated => ⟨rfl, rfl, hrelated⟩

/-- Reports are in accord whatever they say, as a report is not a call. -/
theorem accords_report (one other : Diagnostic) :
    (report (G := G) one).Accords relation (report other) :=
  fun _ _ hrelated => ⟨rfl, rfl, hrelated⟩

/-- Two plays are in accord from agents from which all executions in the first are fair. -/
def AccordsWhile (fair : NodeId × Status → Prop) (relation : Agent G → Agent G → Prop)
    (one other : Play G α) : Prop :=
  ∀ first second, relation first second →
    (∀ execution ∈ executions (one first).notes, fair execution) →
      (other second).value = (one first).value ∧
        calls (other second).notes = calls (one first).notes ∧
        relation (one first).agent (other second).agent

variable {fair : NodeId × Status → Prop}

/-- Plays that are in accord are so as long as executions are fair. -/
theorem Accords.guarded {one other : Play G α} (h : one.Accords relation other) :
    one.AccordsWhile fair relation other := fun first second hrelated _ => h first second hrelated

/-- If every execution is fair, plays are in accord without any condition. -/
theorem AccordsWhile.always {one other : Play G α}
    (h : one.AccordsWhile (fun _ => True) relation other) : one.Accords relation other :=
  fun first second hrelated => h first second hrelated fun _ _ => trivial

/-- Accord as long as executions are fair is carried along compositions. -/
theorem AccordsWhile.bind {one other : Play G α} {next next' : α → Play G β}
    (h : one.AccordsWhile fair relation other)
    (hnext : ∀ value, (next value).AccordsWhile fair relation (next' value)) :
    (one >>= next).AccordsWhile fair relation (other >>= next') := by
  intro first second hrelated hfair
  rw [bind_apply, executions_append, List.forall_mem_append] at hfair
  obtain ⟨hvalue, hcalls, hagents⟩ := h first second hrelated hfair.1
  obtain ⟨hvalue', hcalls', hagents'⟩ := hnext _ _ _ hagents hfair.2
  rw [bind_apply, bind_apply, hvalue]
  refine ⟨hvalue', ?_, hagents'⟩
  rw [calls_append, calls_append, hcalls, hcalls']

/-- Both branches of a choice that is made alike may be in accord each on its own. -/
theorem AccordsWhile.ite {condition : Prop} [Decidable condition] {yes yes' no no' : Play G α}
    (hyes : yes.AccordsWhile fair relation yes') (hno : no.AccordsWhile fair relation no') :
    (if condition then yes else no).AccordsWhile fair relation
      (if condition then yes' else no') := by
  split
  · exact hyes
  · exact hno

/-- What follows a look may depend on the agents that were looked at. -/
theorem accords_while_look_bind {next next' : Agent G → Play G α}
    (h : ∀ {one other}, relation one other →
      (next one).AccordsWhile fair relation (next' other)) :
    (look id >>= next).AccordsWhile fair relation (look id >>= next') :=
  fun first second hrelated => h hrelated first second hrelated

end Play

/-- Being in accord with itself. -/
def Manner.accord (relation : Agent G → Agent G → Prop) : Manner G where
  holds play := play.Accords relation play
  done := Play.accords_pure
  next := Play.Accords.bind

/-! ## What accord asks of a relation and of a game -/

/-- A relation between agents under which the engine reads the same entries at a node on both
sides, and which its writes there preserve. -/
structure Concord (relation : Agent G → Agent G → Prop) (id : NodeId) : Prop where
  entity : ∀ {one other}, relation one other → other.entity = one.entity
  selection : ∀ {one other}, relation one other → other.selection = one.selection
  entry : ∀ {one other}, relation one other → ∀ slot : Slot G, slot ≠ .currentAction →
    other.context.get? slot id.raw = one.context.get? slot id.raw
  select : ∀ {one other}, relation one other → ∀ change,
    relation (one.select change) (other.select change)
  remember : ∀ {one other}, relation one other → ∀ slot : Slot G, slot ≠ .currentAction →
    ∀ value : slot.Value,
      relation (one.remember slot id.raw value) (other.remember slot id.raw value)
  forget : ∀ {one other}, relation one other → ∀ slot : Slot G, slot ≠ .currentAction →
    relation (one.forget slot id.raw) (other.forget slot id.raw)
  record : ∀ {one other}, relation one other → ∀ status,
    relation (one.record id status) (other.record id status)
  release : ∀ {one other}, relation one other → relation (one.release id) (other.release id)

/-- The leaves, conditions and filters of a node are in accord with themselves. -/
structure Rules.Accord (rules : Rules G) (relation : Agent G → Agent G → Prop) (node : Node G) :
    Prop where
  enter : ∀ leaf, (rules.enter leaf node.id).Accords relation (rules.enter leaf node.id)
  act : ∀ leaf elapsed,
    (rules.act leaf node.id elapsed).Accords relation (rules.act leaf node.id elapsed)
  test : ∀ test, (rules.test test node).Accords relation (rules.test test node)
  sift : ∀ name sieve, .game name sieve ∈ node.filters →
    (rules.sift sieve).Accords relation (rules.sift sieve)

variable {rules : Rules G} {kept kept' : NodeId → Bool} {elapsed : Nat} {node : Node G}

namespace Concord

variable {one other : Agent G} {id : NodeId}

/-- Related agents have stored the same status for the node. -/
theorem status_of_eq (h : Concord relation id) (hrelated : relation one other) :
    other.statusOf id = one.statusOf id :=
  congrArg (Option.getD · Status.unknown) (h.entry hrelated .status (by simp))

/-- Related agents stand at the same position in the node. -/
theorem resume_index_of_eq (h : Concord relation id) (hrelated : relation one other) :
    other.resumeIndexOf id = one.resumeIndexOf id :=
  congrArg (Option.getD · (0 : Nat)) (h.entry hrelated .resumeIndex (by simp))

/-- Related agents have counted the same for the node. -/
theorem exec_count_of_eq (h : Concord relation id) (hrelated : relation one other) :
    other.execCountOf id = one.execCountOf id :=
  congrArg (Option.getD · (0 : Nat)) (h.entry hrelated .execCount (by simp))

/-- Related agents have the same countdown for the node. -/
theorem timer_of_eq (h : Concord relation id) (hrelated : relation one other) :
    other.timerOf id = one.timerOf id :=
  congrArg (Option.getD · Timer.unarmed) (h.entry hrelated .timer (by simp))

/-- The same result waits for the node in related agents, if any does. -/
theorem waiting?_eq (h : Concord relation id) (hrelated : relation one other) :
    other.waiting? id = one.waiting? id := h.entry hrelated .completed (by simp)

/-- Agents stay related when the node comes out with a status. -/
theorem settle (h : Concord relation id) (hrelated : relation one other) (status : Status) :
    relation (one.settle id status) (other.settle id status) :=
  h.record (h.remember hrelated .status (by simp) status) status

/-- Agents stay related when a result is made to wait for the node. -/
theorem with_waiting (h : Concord relation id) (hrelated : relation one other) (status : Status) :
    relation (one.withWaiting id status) (other.withWaiting id status) :=
  h.remember hrelated .completed (by simp) status

/-- The filters of a node's gate are in accord with themselves. -/
theorem filter (h : Concord relation node.id) (hrules : rules.Accord relation node)
    {filter : Filter G} (hfilter : filter ∈ node.filters) :
    (filter.run rules).Accords relation (filter.run rules) := by
  cases filter with
  | clear => exact Play.accords_change fun hrelated => h.select hrelated fun _ => []
  | unique => exact Play.accords_change fun hrelated => h.select hrelated Selection.unique
  | first count => exact Play.accords_change fun hrelated => h.select hrelated (List.take count)
  | exclude =>
      refine Play.accords_change fun {one other} hrelated => ?_
      rw [h.entity hrelated]
      exact h.select hrelated (Selection.exclude one.entity)
  | game name sieve => exact hrules.sift name sieve hfilter

/-- The gate of a node is in accord with itself. -/
theorem gate (h : Concord relation node.id) (hrules : rules.Accord relation node) :
    (node.open rules).Accords relation (node.open rules) := by
  refine (Manner.accord relation).open_gate ⟨hrules.test, ?_, ?_, ?_⟩ fun _ => h.filter hrules
  · exact Play.accords_look fun hrelated => by rw [h.selection hrelated]
  · exact fun name holds => Play.accords_note _
  · exact fun diagnostic => Play.accords_note _

/-- A fresh entry of a node is in accord with itself. -/
theorem entry_accords (h : Concord relation node.id) (hrules : rules.Accord relation node) :
    (node.entry rules).Accords relation (node.entry rules) := by
  cases node with
  | composite head kind children =>
      cases kind with
      | sequence | priority =>
          exact Play.accords_change fun hrelated =>
            h.remember hrelated .resumeIndex (by simp) (0 : Nat)
      | parallel => exact Play.accords_pure ()
  | decorator head kind child => exact Play.accords_pure ()
  | timed head duration mustComplete =>
      exact (Play.accords_change fun hrelated =>
        h.remember hrelated .timer (by simp) Timer.unarmed).bind fun _ => Play.accords_note _
  | action head name mustComplete leaf =>
      exact (hrules.enter leaf).bind fun _ => Play.accords_note _

/-- Nodes approach their gates in accord. -/
theorem approach (h : Concord relation node.id) (hrules : rules.Accord relation node) :
    (node.approach rules).Accords relation (node.approach rules) :=
  (Manner.accord relation).approach (Play.accords_look h.status_of_eq) (h.entry_accords hrules)
    (h.gate hrules)

/-- The end of an execution is in accord with itself. -/
theorem conclude (h : Concord relation node.id) (status : Status) :
    (node.conclude status).Accords relation (node.conclude status) :=
  (Play.accords_change fun hrelated => h.settle hrelated status).bind fun _ =>
    (Play.accords_note _).bind fun _ => Play.accords_pure status

/-- The end of a walk is in accord with itself, wherever the walk stopped. -/
theorem stop (h : Concord relation id) (exhausted : Status) (stop : Option (Nat × Status)) :
    (Node.settleWalk id exhausted stop).Accords relation (Node.settleWalk id exhausted stop) := by
  rcases stop with _ | ⟨index, status⟩
  · exact (Play.accords_change fun hrelated => h.forget hrelated .resumeIndex (by simp)).bind
      fun _ => Play.accords_pure exhausted
  · exact (Play.accords_change fun hrelated =>
      h.remember hrelated .resumeIndex (by simp) index).bind fun _ => Play.accords_pure status

/-- Whether a limit is used up is found alike on both sides. -/
theorem spent (h : Concord relation id) (kind : DecoratorKind) :
    (Node.spent id kind).Accords relation (Node.spent id kind) := by
  cases kind with
  | limit bound => exact Play.accords_look fun hrelated => by rw [h.exec_count_of_eq hrelated]
  | inverter | succeed | fail | repeater | untilFail | untilSuccess | root =>
      exact Play.accords_pure false

/-- A limit counts an execution of its child alike on both sides. -/
theorem count_child (h : Concord relation id) (kind : DecoratorKind) :
    (Node.countChild id kind).Accords relation (Node.countChild id kind) := by
  cases kind with
  | limit bound =>
      refine Play.accords_change fun hrelated => ?_
      rw [h.exec_count_of_eq hrelated]
      exact h.remember hrelated .execCount (by simp) _
  | inverter | succeed | fail | repeater | untilFail | untilSuccess | root =>
      exact Play.accords_pure ()

/-- The logic of a leaf is in accord with itself, whatever else is in use on either side. -/
theorem leaf_logic (h : Concord relation node.id) (hrules : rules.Accord relation node)
    (hleaf : node.family = .action) :
    (node.logic rules kept elapsed).Accords relation (node.logic rules kept' elapsed) := by
  have hacted : ∀ status : Status, (do
      Play.note (.acted node.id status)
      return status : Play G Status).Accords relation (do
      Play.note (.acted node.id status)
      return status) := fun status =>
    (Play.accords_note _).bind fun _ => Play.accords_pure status
  cases node with
  | composite | decorator => simp [Node.family] at hleaf
  | timed head duration mustComplete =>
      have hrun : (Node.runTimed head.id duration elapsed).Accords relation
          (Node.runTimed head.id duration elapsed) :=
        (Play.accords_look fun hrelated =>
          congrArg (Node.tickTimer duration elapsed) (h.timer_of_eq hrelated)).bind fun timer =>
          (Play.accords_change fun hrelated => h.remember hrelated .timer (by simp) timer).bind
            fun _ => Play.accords_pure _
      exact hrun.bind hacted
  | action head name mustComplete leaf => exact (hrules.act leaf elapsed).bind hacted

end Concord

/-! ## Executions in accord -/

namespace Node

variable {fair : NodeId × Status → Prop}

/-- Nodes executed side by side are in accord as long as executions are fair. -/
abbrev InAccord (fair : NodeId × Status → Prop) (rules : Rules G) (kept kept' : NodeId → Bool)
    (elapsed : Nat) (relation : Agent G → Agent G → Prop) (one other : Node G) : Prop :=
  (one.execute rules kept elapsed).AccordsWhile fair relation (other.execute rules kept' elapsed)

/-- A walk over children that are in accord one by one is in accord. -/
theorem walk_accords (advance : Status) {children children' : List (Node G)}
    (h : List.Forall₂ (InAccord fair rules kept kept' elapsed relation) children children')
    (skip index : Nat) :
    (walk rules kept elapsed advance skip index children).AccordsWhile fair relation
      (walk rules kept' elapsed advance skip index children') := by
  induction h generalizing skip index with
  | nil => cases skip <;> exact (Play.accords_pure none).guarded
  | cons hchild _ ih =>
      cases skip with
      | succ skip => exact ih skip (index + 1)
      | zero =>
          exact hchild.bind fun status =>
            (ih 0 (index + 1)).ite (Play.accords_pure (some (index, status))).guarded

/-- A parallel run of children that are in accord one by one is in accord. -/
theorem execute_all_accords {children children' : List (Node G)}
    (h : List.Forall₂ (InAccord fair rules kept kept' elapsed relation) children children') :
    (executeAll rules kept elapsed children).AccordsWhile fair relation
      (executeAll rules kept' elapsed children') := by
  induction h with
  | nil => exact (Play.accords_pure false).guarded
  | cons hchild _ ih =>
      exact hchild.bind fun status => ih.bind fun running =>
        (Play.accords_pure (status.isRunning || running)).guarded

/-- The child of a decorator is executed in accord if it is in accord with the one on the other
side. -/
theorem execute_child_accords {child child' : Option (Node G)}
    (h : Option.Rel (InAccord fair rules kept kept' elapsed relation) child child') :
    (executeChild rules kept elapsed child).AccordsWhile fair relation
      (executeChild rules kept' elapsed child') := by
  cases h with
  | none => exact (Play.accords_pure none).guarded
  | some hchild => exact hchild.bind fun status => (Play.accords_pure (some status)).guarded

/-- A visit is in accord with one of a node with the same approach, if their runs are. -/
theorem visit_accords {node node' : Node G} {run run' : Play G Status}
    {after after' : Status → Play G Unit} (hid : node'.id = node.id)
    (hfamily : node'.family = node.family) (happroach : node'.approach rules = node.approach rules)
    (hconcord : Concord relation node.id) (hrules : rules.Accord relation node)
    (hrun : run.AccordsWhile fair relation run')
    (hafter : ∀ status, (after status).Accords relation (after' status)) :
    (node.visit rules (node.entry rules) run after).AccordsWhile fair relation
      (node'.visit rules (node'.entry rules) run' after') := by
  have hconclude : ∀ status, (node.conclude status).Accords relation (node'.conclude status) := by
    intro status
    unfold conclude
    rw [hid]
    exact hconcord.conclude status
  rw [visit_eq, visit_eq, happroach, hid, hfamily]
  refine (hconcord.approach hrules).guarded.bind fun isOpen => Play.AccordsWhile.ite ?_ ?_
  · exact hrun.bind fun status => ((hafter status).bind fun _ => hconclude status).guarded
  · refine ((Play.accords_change fun hrelated => ?_).bind fun _ => hconclude .canNotExecute).guarded
    split
    · exact hconcord.release hrelated
    · exact hrelated

/-- What an execution in accord asks of each node: the engine's steps and the game's there, and
that running and ended leaves are followed up alike. -/
structure Attuned (rules : Rules G) (relation : Agent G → Agent G → Prop)
    (kept kept' : NodeId → Bool) (node : Node G) : Prop where
  concord : Concord relation node.id
  rules : rules.Accord relation node
  follow : node.family = .action → ∀ {one other}, relation one other → ∀ status,
    relation (one.follow kept node status) (other.follow kept' node status)

/-- A leaf is in accord with itself where it is attuned. -/
theorem leaf_accords (h : node.Attuned rules relation kept kept') (hleaf : node.family = .action) :
    InAccord fair rules kept kept' elapsed relation node node := by
  refine Play.Accords.guarded fun first second hrelated => ?_
  rw [execute_leaf hleaf, execute_leaf hleaf, h.concord.waiting?_eq hrelated]
  cases first.waiting? node.id with
  | some status =>
      exact h.concord.conclude status _ _ (h.concord.forget hrelated .completed (by simp))
  | none =>
      have hlogic : (node.logic rules kept elapsed).Accords relation
          (node.logic rules kept' elapsed) := h.concord.leaf_logic h.rules hleaf
      refine (visit_accords rfl rfl rfl h.concord h.rules hlogic.guarded ?_).always _ _ hrelated
      exact fun status => Play.accords_change fun hrelated => h.follow hleaf hrelated status

/-- A composite is executed in accord with one that has other children, if these are executed in
accord and the composites approach their gates alike. -/
theorem composite_accords {head : Head G} {kind : CompositeKind}
    {children children' : List (Node G)}
    (hattuned : (composite head kind children).Attuned rules relation kept kept')
    (happroach : (composite head kind children').approach rules =
      (composite head kind children).approach rules)
    (hchildren : List.Forall₂ (InAccord fair rules kept kept' elapsed relation)
      children children') :
    InAccord fair rules kept kept' elapsed relation (composite head kind children)
      (composite head kind children') := by
  unfold InAccord
  rw [execute_inner (by simp [family]), execute_inner (by simp [family])]
  refine visit_accords rfl rfl happroach hattuned.concord hattuned.rules ?_
    fun _ => Play.accords_pure ()
  rw [logic, logic]
  cases kind.advance? with
  | some advance =>
      refine (Play.accords_look fun hrelated =>
        hattuned.concord.resume_index_of_eq hrelated).guarded.bind fun start => ?_
      exact (walk_accords advance hchildren start 0).bind fun stop =>
        (hattuned.concord.stop advance stop).guarded
  | none => exact (execute_all_accords hchildren).bind fun running => (Play.accords_pure _).guarded

/-- A decorator is executed in accord with one that has another child, if the children are
executed in accord and the decorators approach their gates alike. -/
theorem decorator_accords {head : Head G} {kind : DecoratorKind} {child child' : Option (Node G)}
    (hattuned : (decorator head kind child).Attuned rules relation kept kept')
    (happroach : (decorator head kind child').approach rules =
      (decorator head kind child).approach rules)
    (hchild : Option.Rel (InAccord fair rules kept kept' elapsed relation) child child') :
    InAccord fair rules kept kept' elapsed relation (decorator head kind child)
      (decorator head kind child') := by
  unfold InAccord
  rw [execute_inner (by simp [family]), execute_inner (by simp [family])]
  refine visit_accords rfl rfl happroach hattuned.concord hattuned.rules ?_
    fun _ => Play.accords_pure ()
  rw [logic, logic, run_decorator_eq, run_decorator_eq]
  refine (hattuned.concord.spent kind).guarded.bind fun isSpent => Play.AccordsWhile.ite ?_ ?_
  · exact (Play.accords_pure Status.finished).guarded
  · refine (execute_child_accords hchild).bind fun result => Play.Accords.guarded ?_
    cases result with
    | none => exact (Play.accords_report _ _).bind fun _ => Play.accords_pure Status.failed
    | some status =>
        exact (hattuned.concord.count_child kind).bind fun _ =>
          Play.accords_pure (reshape kind status)

/-- A node is executed in accord with itself if every node at and below it is attuned. -/
theorem execute_accords
    (h : ∀ other ∈ node.preorder, other.Attuned rules relation kept kept') :
    InAccord fair rules kept kept' elapsed relation node node := by
  induction node using by_family with
  | inner node hinner ih =>
      have hself := h node node.self_mem_preorder
      have hchildren : ∀ child ∈ node.children,
          InAccord fair rules kept kept' elapsed relation child child := fun child hchild =>
        ih child hchild fun other hother => h other (mem_preorder.2 (.inr ⟨child, hchild, hother⟩))
      cases node with
      | composite head kind children =>
          exact composite_accords hself rfl (List.forall₂_same.2 hchildren)
      | decorator head kind child =>
          refine decorator_accords hself rfl ?_
          cases child with
          | none => exact .none
          | some child => exact .some (hchildren child (by simp [children]))
      | timed | action => exact absurd rfl hinner
  | leaf node hleaf => exact leaf_accords (h node node.self_mem_preorder) hleaf

end Node

/-! ## Updates in accord -/

namespace Agent

/-- What accord of updates asks of a relation between agents that run two trees: that updates read
alike on both sides and that what they write keeps agents related, and, as long as executions are
fair, the same of the trees and of the actions that go first. -/
structure Abreast (fair : NodeId × Status → Prop) (relation : Agent G → Agent G → Prop)
    (rules : Rules G) (kept kept' : NodeId → Bool) (tree tree' : Tree G) : Prop where
  status : ∀ {one other}, relation one other → other.status = one.status
  paused : ∀ {one other}, relation one other → other.paused = one.paused
  attached : ∀ {one other}, relation one other → one.behavior = some tree
  attached' : ∀ {one other}, relation one other → other.behavior = some tree'
  pressing : ∀ {one other}, relation one other →
    other.pressingAction? kept' = one.pressingAction? kept
  nextTick : ∀ {one other}, relation one other → relation one.nextTick other.nextTick
  withStatus : ∀ {one other}, relation one other → ∀ status,
    relation (one.withStatus status) (other.withStatus status)
  root : ∀ elapsed, tree.toNode.InAccord fair rules (tree.inUse kept) (tree'.inUse kept') elapsed
    relation tree'.toNode
  concord : ∀ {one other}, relation one other → ∀ action ∈ one.pressingAction? kept,
    Concord relation action.id
  action : ∀ {one other}, relation one other → ∀ action ∈ one.pressingAction? kept, ∀ elapsed,
    action.InAccord fair rules (tree.inUse kept) (tree'.inUse kept') elapsed relation action

namespace Abreast

variable {fair : NodeId × Status → Prop} {tree tree' : Tree G}

/-- A pass through the trees on the two sides is in accord. -/
theorem pass_accords (h : Abreast fair relation rules kept kept' tree tree') (elapsed : Nat) :
    (pass rules (tree.inUse kept) elapsed tree).AccordsWhile fair relation
      (pass rules (tree'.inUse kept') elapsed tree') :=
  (h.root elapsed).bind fun status =>
    ((Play.accords_change fun hrelated => h.withStatus hrelated status).bind fun _ =>
      Play.accords_pure status).guarded

/-- The end of an update is in accord with itself. -/
theorem finish_tick_accords (h : Abreast fair relation rules kept kept' tree tree') :
    (finishTick (G := G)).Accords relation finishTick := by
  refine Play.accords_look_bind fun hrelated => (Play.accords_report _ _).bind fun _ => ?_
  rw [h.status hrelated]
  exact Play.accords_pure _

/-- An update in which an action goes first is in accord if the action is. -/
theorem update_pressed_accords (h : Abreast fair relation rules kept kept' tree tree')
    {action : Node G} (hconcord : Concord relation action.id)
    (haction :
      action.InAccord fair rules (tree.inUse kept) (tree'.inUse kept') elapsed relation action) :
    (updatePressed rules (tree.inUse kept) elapsed tree action).AccordsWhile fair relation
      (updatePressed rules (tree'.inUse kept') elapsed tree' action) := by
  refine haction.bind fun status => Play.accords_while_look_bind fun _ =>
    (Play.accords_report _ _).guarded.bind fun _ => Play.AccordsWhile.ite ?_ ?_
  · exact ((Play.accords_change fun hrelated => h.withStatus hrelated status).bind fun _ =>
      Play.accords_pure status).guarded
  · refine (Play.accords_change fun hrelated =>
      hconcord.with_waiting hrelated status).guarded.bind fun _ =>
        (h.pass_accords elapsed).bind fun _ => Play.Accords.guarded ?_
    exact (Play.accords_change fun hrelated => hconcord.forget hrelated .completed (by simp)).bind
      fun _ => h.finish_tick_accords

/-- Agents abreast are updated in accord. -/
theorem update_accords (h : Abreast fair relation rules kept kept' tree tree') (elapsed : Nat) :
    (update rules kept elapsed).AccordsWhile fair relation (update rules kept' elapsed) := by
  refine Play.accords_while_look_bind fun {one other} hrelated => ?_
  rw [h.paused hrelated, h.status hrelated, h.attached hrelated, h.attached' hrelated,
    h.pressing hrelated]
  refine Play.AccordsWhile.ite (Play.accords_pure _).guarded
    ((Play.accords_change h.nextTick).guarded.bind fun _ => ?_)
  cases hpressing : one.pressingAction? kept with
  | none => exact (h.pass_accords elapsed).bind fun _ => h.finish_tick_accords.guarded
  | some action =>
      exact h.update_pressed_accords (h.concord hrelated action hpressing)
        (h.action hrelated action hpressing elapsed)

end Abreast

end Agent

/-! ## Gates of nodes that differ below -/

namespace Condition

variable {node node' : Node G}

mutual

/-- Nodes of one identity for which the game tests alike evaluate a condition alike. -/
theorem evaluate_congr (htest : ∀ test, rules.test test node' = rules.test test node)
    (hid : node'.id = node.id) : ∀ condition : Condition G,
      condition.evaluate rules node' = condition.evaluate rules node
  | always | never => by rw [evaluate, evaluate, noted, noted, hid]
  | conjunction conditions => evaluate_all_congr htest hid conditions
  | disjunction conditions => evaluate_any_congr htest hid conditions
  | negation inner => evaluate_not_congr htest hid inner
  | selection filter => by rw [evaluate, evaluate, noted, noted, hid]
  | game name test => by rw [evaluate, evaluate, noted, noted, htest, hid]

/-- They evaluate the members of a conjunction alike. -/
theorem evaluate_all_congr (htest : ∀ test, rules.test test node' = rules.test test node)
    (hid : node'.id = node.id) : ∀ conditions : List (Condition G),
      evaluateAll rules node' conditions = evaluateAll rules node conditions
  | [] => rfl
  | condition :: rest => by
      rw [evaluateAll, evaluateAll, evaluate_congr htest hid condition,
        evaluate_all_congr htest hid rest]

/-- They evaluate the members of a disjunction alike. -/
theorem evaluate_any_congr (htest : ∀ test, rules.test test node' = rules.test test node)
    (hid : node'.id = node.id) : ∀ conditions : List (Condition G),
      evaluateAny rules node' conditions = evaluateAny rules node conditions
  | [] => rfl
  | condition :: rest => by
      rw [evaluateAny, evaluateAny, evaluate_congr htest hid condition,
        evaluate_any_congr htest hid rest]

/-- They evaluate what is negated alike. -/
theorem evaluate_not_congr (htest : ∀ test, rules.test test node' = rules.test test node)
    (hid : node'.id = node.id) : ∀ inner : Option (Condition G),
      evaluateNot rules node' inner = evaluateNot rules node inner
  | none => by rw [evaluateNot, evaluateNot, emptyNegation, emptyNegation, hid]
  | some condition => by
      rw [evaluateNot, evaluateNot, evaluate_congr htest hid condition]

end

end Condition

end BehaviorTree
