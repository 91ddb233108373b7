import BehaviorTree.Proofs.Entries
import BehaviorTree.Proofs.Manner
import BehaviorTree.Proofs.Subtree

/-!
# What an execution is made of

Every execution is an approach, which ends with the answer of the gate, then the node's own
logic if the gate is open, and last the settling of the result. `Node.execute_inner` and
`Node.execute_leaf` say so of the two families of nodes, and `Node.execute_keeps` carries a
passage from the children of a composite or decorator to the node.
-/

namespace BehaviorTree

variable {G : Game}

/-- The status that lets a composite go on to its next child; none for a parallel, which
goes on in any case. -/
def CompositeKind.advance? : CompositeKind → Option Status
  | sequence => some .finished
  | priority => some .failed
  | parallel => none

namespace Node

/-- What a node does on a fresh entry. -/
def entry (rules : Rules G) : Node G → Play G Unit
  | composite head kind _ => enterComposite head.id kind
  | decorator _ _ _ => pure ()
  | timed head _ _ => do
      Play.change fun agent => agent.remember .timer head.id.raw Timer.unarmed
      Play.note (.entered head.id)
  | action head _ _ leaf => do
      rules.enter leaf head.id
      Play.note (.entered head.id)

/-- What a node does once its gate is open. -/
def logic (rules : Rules G) (kept : NodeId → Bool) (elapsed : Nat) : Node G → Play G Status
  | composite head kind children =>
      match kind.advance? with
      | some advance => do
          let start ← Play.look fun agent => agent.resumeIndexOf head.id
          let stop ← walk rules kept elapsed advance start 0 children
          settleWalk head.id advance stop
      | none => do
          let running ← executeAll rules kept elapsed children
          return if running then .running else .finished
  | node@(decorator _ kind child) =>
      runDecorator node kind (executeChild rules kept elapsed child)
  | timed head duration _ => do
      let status ← runTimed head.id duration elapsed
      Play.note (.acted head.id status)
      return status
  | action head _ _ leaf => do
      let status ← rules.act leaf head.id elapsed
      Play.note (.acted head.id status)
      return status

/-- What a decorator makes of the result of its child, if it has a child. -/
def answerChild (node : Node G) (kind : DecoratorKind) : Option Status → Play G Status
  | none => do
      Play.report node.childless
      return .failed
  | some status => do
      countChild node.id kind
      return reshape kind status

/-- A decorator asks whether it is used up, executes its child and makes an answer of the result. -/
theorem run_decorator_eq (node : Node G) (kind : DecoratorKind)
    (tick : Play G (Option Status)) :
    runDecorator node kind tick = (do
      let isSpent ← spent node.id kind
      if isSpent then return .finished
      else
        let result ← tick
        node.answerChild kind result) := rfl

/-- Looking whether a decorator leaves its child alone changes nothing. -/
theorem spent_apply (id : NodeId) (kind : DecoratorKind) (agent : Agent G) :
    spent id kind agent = ⟨(spent id kind agent).value, agent, []⟩ := by
  cases kind <;> rfl

/-- The fresh entry, unless the node is running. -/
def freshen (rules : Rules G) (node : Node G) : Play G Unit := do
  let last ← Play.look fun agent => agent.statusOf node.id
  if last.isRunning then pure () else node.entry rules

/-- A fresh entry where it is due, and then the question to the gate. -/
def approach (rules : Rules G) (node : Node G) : Play G Bool := do
  node.freshen rules
  node.open rules

variable {rules : Rules G} {kept : NodeId → Bool} {elapsed : Nat}

/-- A walk goes on behind a child that comes out with `advance`. -/
theorem walk_advance {advance : Status} {child : Node G} {agent : Agent G}
    (h : (child.execute rules kept elapsed agent).value = advance) (index : Nat)
    (rest : List (Node G)) :
    walk rules kept elapsed advance 0 index (child :: rest) agent =
      let first := child.execute rules kept elapsed agent
      let later := walk rules kept elapsed advance 0 (index + 1) rest first.agent
      ⟨later.value, later.agent, first.notes ++ later.notes⟩ := by
  rw [walk, Play.bind_apply, if_pos h]

/-- A walk stops at a child that comes out with anything else. -/
theorem walk_stop {advance : Status} {child : Node G} {agent : Agent G}
    (h : (child.execute rules kept elapsed agent).value ≠ advance) (index : Nat)
    (rest : List (Node G)) :
    walk rules kept elapsed advance 0 index (child :: rest) agent =
      let first := child.execute rules kept elapsed agent
      ⟨some (index, first.value), first.agent, first.notes⟩ := by
  rw [walk, Play.bind_apply, if_neg h]
  simp

/-- The logic of a sequence or priority is its walk, with the position and the result settled. -/
theorem logic_walk {head : Head G} {kind : CompositeKind} {children : List (Node G)}
    {advance : Status} (h : kind.advance? = some advance) (agent : Agent G) :
    (composite head kind children).logic rules kept elapsed agent =
      let stop := walk rules kept elapsed advance (agent.resumeIndexOf head.id) 0 children agent
      let settled := settleWalk head.id advance stop.value stop.agent
      ⟨settled.value, settled.agent, stop.notes ++ settled.notes⟩ := by
  rw [logic, h]
  rfl

/-- The logic of a parallel executes all children. -/
theorem logic_all {head : Head G} {kind : CompositeKind} {children : List (Node G)}
    (h : kind.advance? = none) (agent : Agent G) :
    (composite head kind children).logic rules kept elapsed agent =
      let all := executeAll rules kept elapsed children agent
      ⟨if all.value then .running else .finished, all.agent, all.notes⟩ := by
  rw [logic, h]
  simp

/-- A limit that is used up finishes at once. -/
theorem logic_spent {head : Head G} {kind : DecoratorKind} {child : Option (Node G)}
    {agent : Agent G} (h : (spent head.id kind agent).value = true) :
    (decorator head kind child).logic rules kept elapsed agent = ⟨.finished, agent, []⟩ := by
  have hspent : spent head.id kind agent = ⟨true, agent, []⟩ := by rw [spent_apply, h]
  rw [logic, run_decorator_eq, Play.bind_apply]
  simp [id, Node.head, hspent]

/-- A decorator that is not used up answers by the result of its child. -/
theorem logic_unspent {head : Head G} {kind : DecoratorKind} {child : Option (Node G)}
    {agent : Agent G} (h : (spent head.id kind agent).value = false) :
    (decorator head kind child).logic rules kept elapsed agent =
      let result := executeChild rules kept elapsed child agent
      let answer := (decorator head kind child).answerChild kind result.value result.agent
      ⟨answer.value, answer.agent, result.notes ++ answer.notes⟩ := by
  have hspent : spent head.id kind agent = ⟨false, agent, []⟩ := by rw [spent_apply, h]
  rw [logic, run_decorator_eq, Play.bind_apply]
  simp [id, Node.head, hspent]

/-- An execution of a composite or decorator is a visit with its own entry and logic. -/
theorem execute_inner {node : Node G} (h : node.family ≠ .action) :
    node.execute rules kept elapsed =
      node.visitInner rules (node.entry rules) (node.logic rules kept elapsed) := by
  cases node with
  | composite head kind children => cases kind <;> rfl
  | decorator head kind child => rfl
  | timed | action => exact absurd rfl h

/-- A leaf for which a result waits gives that result, and any other leaf is visited and followed
up. -/
theorem execute_leaf {node : Node G} (h : node.family = .action) (agent : Agent G) :
    node.execute rules kept elapsed agent =
      match agent.waiting? node.id with
      | some status =>
          node.conclude status (agent.forget .completed node.id.raw)
      | none =>
          node.visit rules (node.entry rules) (node.logic rules kept elapsed)
            (fun status => Play.change fun agent => agent.follow kept node status) agent := by
  have hvisit : ∀ fresh run, node.visitLeaf rules kept fresh run agent =
      match agent.waiting? node.id with
      | some status =>
          node.conclude status (agent.forget .completed node.id.raw)
      | none =>
          node.visit rules
            (do fresh; Play.note (.entered node.id))
            (do
              let status ← run
              Play.note (.acted node.id status)
              return status)
            (fun status => Play.change fun agent => agent.follow kept node status) agent := by
    intro fresh run
    rw [visitLeaf, Play.bind_apply, Play.look_apply, Agent.take_completed_eq]
    cases agent.waiting? node.id <;> simp
  cases node with
  | composite | decorator => simp [family] at h
  | timed | action => exact hvisit _ _

/-- A visit is an approach and what follows the gate's answer. -/
theorem visit_eq (node : Node G) (run : Play G Status) (after : Status → Play G Unit) :
    node.visit rules (node.entry rules) run after = (do
      let isOpen ← node.approach rules
      if isOpen then
        let status ← run
        after status
        node.conclude status
      else
        Play.change fun agent =>
          if node.family = .action then agent.release node.id else agent
        node.conclude .canNotExecute) := by
  unfold visit approach freshen
  simp only [bind_assoc]
  congr 1
  funext last
  split <;> simp

/-- A visit to a node whose gate is open. -/
theorem visit_open {node : Node G} {run : Play G Status} {after : Status → Play G Unit}
    {agent : Agent G} (h : (node.approach rules agent).value = true) :
    node.visit rules (node.entry rules) run after agent =
      let near := node.approach rules agent
      let ran := run near.agent
      let followed := after ran.value ran.agent
      ⟨ran.value, followed.agent.settle node.id ran.value,
        near.notes ++ (ran.notes ++ (followed.notes ++ [.executed node.id ran.value]))⟩ := by
  simp [visit_eq, h, conclude]

/-- A visit to a node whose gate is closed. -/
theorem visit_closed {node : Node G} {run : Play G Status} {after : Status → Play G Unit}
    {agent : Agent G} (h : (node.approach rules agent).value = false) :
    node.visit rules (node.entry rules) run after agent =
      let near := node.approach rules agent
      let left := if node.family = .action then near.agent.release node.id else near.agent
      ⟨.canNotExecute, left.settle node.id .canNotExecute,
        near.notes ++ [.executed node.id .canNotExecute]⟩ := by
  simp [visit_eq, h, conclude]

/-- An execution of a composite or decorator whose gate is closed. -/
theorem execute_inner_closed {node : Node G} (hinner : node.family ≠ .action) {agent : Agent G}
    (h : (node.approach rules agent).value = false) :
    node.execute rules kept elapsed agent =
      let near := node.approach rules agent
      ⟨.canNotExecute, near.agent.settle node.id .canNotExecute,
        near.notes ++ [.executed node.id .canNotExecute]⟩ := by
  rw [execute_inner hinner, visitInner, visit_closed h]
  simp only [hinner, ↓reduceIte]

/-- An execution of a composite or decorator whose gate is open. -/
theorem execute_inner_open {node : Node G} (hinner : node.family ≠ .action) {agent : Agent G}
    (h : (node.approach rules agent).value = true) :
    node.execute rules kept elapsed agent =
      let near := node.approach rules agent
      let ran := node.logic rules kept elapsed near.agent
      ⟨ran.value, ran.agent.settle node.id ran.value,
        near.notes ++ ran.notes ++ [.executed node.id ran.value]⟩ := by
  rw [execute_inner hinner, visitInner, visit_open h]
  simp

/-! ## Ends of walks -/

/-- A walk that stopped has the result that it stopped with, and any other one the given result. -/
theorem settle_walk_value (id : NodeId) (exhausted : Status) (stop : Option (Nat × Status))
    (agent : Agent G) :
    (settleWalk id exhausted stop agent).value = (stop.map Prod.snd).getD exhausted := by
  cases stop <;> rfl

/-- A walk that stopped leaves its position behind, and any other one leaves none. -/
theorem position?_settle_walk (id : NodeId) (exhausted : Status) (stop : Option (Nat × Status))
    (agent : Agent G) :
    (settleWalk id exhausted stop agent).agent.position? id = stop.map Prod.fst := by
  rcases stop with _ | ⟨index, status⟩
  · exact agent.context.get?_remove_self (Slot.resumeIndex : Slot G) id.raw
  · exact agent.position?_remember id index

/-- The end of a walk leaves all statuses alone. -/
theorem status_of_settle_walk (id other : NodeId) (exhausted : Status)
    (stop : Option (Nat × Status)) (agent : Agent G) :
    (settleWalk id exhausted stop agent).agent.statusOf other = agent.statusOf other := by
  rcases stop with _ | ⟨index, status⟩
  · exact agent.status_of_forget_of_slot_ne _ (by simp) other
  · exact agent.status_of_remember_of_slot_ne .resumeIndex _ _ (by simp) other

/-- The end of a walk leaves an agent standing as it did. -/
theorem stands_settle_walk (id : NodeId) (exhausted : Status) (stop : Option (Nat × Status))
    (agent : Agent G) : agent.Stands (settleWalk id exhausted stop agent).agent := by
  cases stop <;> exact ⟨rfl, rfl, rfl, rfl, rfl, rfl⟩

/-- The end of a walk leaves the selection alone. -/
theorem selection_settle_walk (id : NodeId) (exhausted : Status) (stop : Option (Nat × Status))
    (agent : Agent G) :
    (settleWalk id exhausted stop agent).agent.selection = agent.selection := by
  cases stop <;> rfl

/-- The end of a walk touches nothing but the node's position. -/
theorem spares_settle_walk {id : NodeId} (exhausted : Status) (stop : Option (Nat × Status))
    (agent : Agent G) {region : Region G} (h : region .resumeIndex id.raw) :
    agent.Spares region (settleWalk id exhausted stop agent).agent := by
  cases stop with
  | none => exact agent.spares_forget region h
  | some stop => exact agent.spares_remember region .resumeIndex stop.1 h

end Node

/-! ## Manners of nodes -/

namespace Manner

/-- A manner in which a composite or decorator does what it does besides executing children
and settling a result. -/
structure Tends (manner : Manner G) (node : Node G) : Prop where
  position : manner.holds (Play.look fun agent => agent.resumeIndexOf node.id)
  stop : ∀ exhausted stop, manner.holds (Node.settleWalk node.id exhausted stop)
  spent : ∀ kind, manner.holds (Node.spent node.id kind)
  answer : ∀ kind result, manner.holds (node.answerChild kind result)

/-- A manner in which a leaf claims a waiting result, or runs and is followed up. -/
structure Acts (manner : Manner G) (rules : Rules G) (kept : NodeId → Bool) (elapsed : Nat)
    (node : Node G) : Prop where
  waiting : manner.holds (Play.look fun agent => agent.waiting? node.id)
  claim : manner.holds (Play.change fun agent => agent.forget .completed node.id.raw)
  logic : manner.holds (node.logic rules kept elapsed)
  follow : ∀ status, manner.holds (Play.change fun agent => agent.follow kept node status)
  release : manner.holds (Play.change fun agent => agent.release node.id)

/-- A manner in which a node does all that it does besides executing children. -/
structure Suits (manner : Manner G) (rules : Rules G) (kept : NodeId → Bool) (elapsed : Nat)
    (node : Node G) : Prop where
  last : manner.holds (Play.look fun agent => agent.statusOf node.id)
  entry : manner.holds (node.entry rules)
  gate : manner.holds (node.open rules)
  conclude : ∀ status, manner.holds (node.conclude status)
  inner : node.family ≠ .action → manner.Tends node
  leaf : node.family = .action → manner.Acts rules kept elapsed node

variable (manner : Manner G) {rules : Rules G} {kept : NodeId → Bool} {elapsed : Nat}
  {node : Node G}

/-- An approach goes in a manner if the entry and the gate do. -/
theorem approach (hlast : manner.holds (Play.look fun agent => agent.statusOf node.id))
    (hentry : manner.holds (node.entry rules)) (hgate : manner.holds (node.open rules)) :
    manner.holds (node.approach rules) := by
  have hfreshen : manner.holds (node.freshen rules) :=
    manner.next hlast fun _ => Manner.ite (manner.done ()) hentry
  exact manner.next hfreshen fun _ => hgate

/-- The logic of a composite or decorator goes in a manner if the executions of its children do. -/
theorem logic (hinner : node.family ≠ .action) (h : manner.Tends node)
    (hchildren : ∀ child ∈ node.children, manner.holds (child.execute rules kept elapsed)) :
    manner.holds (node.logic rules kept elapsed) := by
  cases node with
  | composite head kind children =>
      have hwalk : ∀ advance : Status, manner.holds (do
          let start ← Play.look fun agent => agent.resumeIndexOf head.id
          let stop ← Node.walk rules kept elapsed advance start 0 children
          Node.settleWalk head.id advance stop) := fun advance =>
        manner.next h.position fun start =>
          manner.next (manner.walk hchildren start 0) fun stop => h.stop advance stop
      cases kind with
      | sequence => exact hwalk .finished
      | priority => exact hwalk .failed
      | parallel => exact manner.next (manner.execute_all hchildren) fun _ => manner.done _
  | decorator head kind child =>
      have hchild := manner.execute_child fun node hnode =>
        hchildren node (Option.mem_toList.2 hnode)
      rw [Node.logic, Node.run_decorator_eq]
      exact manner.next (h.spent kind) fun _ =>
        Manner.ite (manner.done _) (manner.next hchild fun result => h.answer kind result)
  | timed | action => exact absurd rfl hinner

/-- A visit is made in a manner if its parts are. -/
theorem visit {run : Play G Status} {after : Status → Play G Unit}
    (happroach : manner.holds (node.approach rules)) (hrun : manner.holds run)
    (hafter : ∀ status, manner.holds (after status))
    (hconclude : ∀ status, manner.holds (node.conclude status))
    (hrelease : node.family = .action →
      manner.holds (Play.change fun agent => agent.release node.id)) :
    manner.holds (node.visit rules (node.entry rules) run after) := by
  have hblocked : manner.holds (Play.change fun agent =>
      if node.family = .action then agent.release node.id else agent) := by
    by_cases hleaf : node.family = .action
    · simpa [hleaf] using hrelease hleaf
    · have hsame : (Play.change fun agent : Agent G =>
          if node.family = .action then agent.release node.id else agent) = pure () := by
        funext agent
        simp [hleaf]
      rw [hsame]
      exact manner.done ()
  rw [Node.visit_eq]
  refine manner.next happroach fun _ => Manner.ite ?_ ?_
  · exact manner.next hrun fun status => manner.next (hafter status) fun _ => hconclude status
  · exact manner.next hblocked fun _ => hconclude .canNotExecute

/-- A composite or decorator is executed in a manner if its children are and the manner suits
it. -/
theorem execute_inner (hinner : node.family ≠ .action)
    (h : manner.Suits rules kept elapsed node)
    (hchildren : ∀ child ∈ node.children, manner.holds (child.execute rules kept elapsed)) :
    manner.holds (node.execute rules kept elapsed) := by
  rw [Node.execute_inner hinner, Node.visitInner]
  exact manner.visit (manner.approach h.last h.entry h.gate)
    (manner.logic hinner (h.inner hinner) hchildren) (fun _ => manner.done ()) h.conclude
    fun hleaf => absurd hleaf hinner

/-- The execution of a leaf goes in a manner if all its parts do. -/
theorem execute_leaf (hleaf : node.family = .action) (h : manner.Suits rules kept elapsed node) :
    manner.holds (node.execute rules kept elapsed) := by
  have hacts := h.leaf hleaf
  -- The leaf looks whether a result waits for it and goes on from the answer.
  have hexecute : node.execute rules kept elapsed =
      (Play.look fun agent => agent.waiting? node.id) >>= fun waiting =>
        match waiting with
        | some status =>
            (Play.change fun agent => agent.forget .completed node.id.raw) >>= fun _ =>
              node.conclude status
        | none => node.visit rules (node.entry rules) (node.logic rules kept elapsed)
            fun status => Play.change fun agent => agent.follow kept node status := by
    funext agent
    rw [Node.execute_leaf hleaf, Play.bind_apply, Play.look_apply]
    cases agent.waiting? node.id <;> simp
  rw [hexecute]
  refine manner.next hacts.waiting fun waiting => ?_
  cases waiting with
  | some status => exact manner.next hacts.claim fun _ => h.conclude status
  | none =>
      exact manner.visit (manner.approach h.last h.entry h.gate) hacts.logic hacts.follow
        h.conclude fun _ => hacts.release

/-- A node is executed in a manner that suits every node at and below it. -/
theorem execute (h : ∀ other ∈ node.preorder, manner.Suits rules kept elapsed other) :
    manner.holds (node.execute rules kept elapsed) := by
  induction node using Node.by_family with
  | inner node hinner ih =>
      refine manner.execute_inner hinner (h node node.self_mem_preorder) fun child hchild => ?_
      exact ih child hchild fun other hother =>
        h other (Node.preorder_trans (Node.child_mem_preorder hchild) hother)
  | leaf node hleaf => exact manner.execute_leaf hleaf (h node node.self_mem_preorder)

end Manner

/-! ## Gates -/

/-- A passage that the evaluation of a gate takes, whatever the gate. -/
structure Passage.Gates (passage : Passage G) (id : NodeId) : Prop where
  quiet : ∀ {before after notes}, before.Touches .ofGame after →
    (∀ note ∈ notes, note.IsReport) → passage.allows before notes after
  tested : ∀ agent name holds, passage.allows agent [.tested id name holds] agent

variable {rules : Rules G} {kept : NodeId → Bool} {elapsed : Nat} {passage : Passage G}

/-- A play that stays in what belongs to the game takes every passage that gates take. -/
theorem Play.StaysIn.keeps {α : Type} {play : Play G α} {id : NodeId} (h : passage.Gates id)
    (hplay : play.StaysIn .ofGame) : play.Keeps passage :=
  fun agent => h.quiet (hplay agent).1 (hplay agent).2

/-- A filter stays in what belongs to the game if those of the game do. -/
theorem Filter.run_stays_in {filter : Filter G}
    (hsift : ∀ name sieve, filter = game name sieve → (rules.sift sieve).StaysIn .ofGame) :
    (filter.run rules).StaysIn .ofGame := by
  cases filter with
  | clear => exact fun agent => ⟨agent.touches_select fun _ => [], by simp [Filter.run]⟩
  | unique => exact fun agent => ⟨agent.touches_select Selection.unique, by simp [Filter.run]⟩
  | first count => exact fun agent => ⟨agent.touches_select (List.take count), by simp [Filter.run]⟩
  | exclude =>
      intro agent
      exact ⟨agent.touches_select (Selection.exclude agent.entity), by simp [Filter.run]⟩
  | game name sieve => exact hsift name sieve rfl

/-- The conditions of a modest game take every passage of gates. -/
theorem Rules.Modest.asks (hrules : rules.Modest) {node : Node G} (h : passage.Gates node.id) :
    passage.manner.Asks rules node where
  test test := (hrules.test test node).keeps h
  selected := Play.keeps_look _
  tested name holds := Play.keeps_note fun agent => h.tested agent name holds
  report diagnostic :=
    Play.keeps_note fun agent => h.quiet (.refl agent) (by simp [Note.IsReport])

namespace Node

/-- The gate of a node takes every passage that gates take. -/
theorem open_keeps (hrules : rules.Modest) {node : Node G} (h : passage.Gates node.id) :
    (node.open rules).Keeps passage :=
  passage.manner.open_gate (hrules.asks h) fun _ _ =>
    (Filter.run_stays_in fun _ sieve _ => hrules.sift sieve).keeps h

/-! ## Composites and decorators -/

end Node

/-- A passage that composites and decorators of an identity take with all they do besides
executing children and settling a result. -/
structure Passage.Tends (passage : Passage G) (id : NodeId) : Prop extends passage.Gates id where
  position : ∀ agent (index : Nat),
    passage.allows agent [] (agent.remember .resumeIndex id.raw index)
  unposition : ∀ agent, passage.allows agent [] (agent.forget .resumeIndex id.raw)
  count : ∀ agent, passage.allows agent []
    (agent.remember .execCount id.raw (agent.execCountOf id + 1 : Nat))

/-- A passage that composites and decorators of an identity take with all they do besides
executing children. -/
structure Passage.Serves (passage : Passage G) (id : NodeId) : Prop extends passage.Tends id where
  conclude : ∀ agent status,
    passage.allows agent [.executed id status] (agent.settle id status)

/-- The entries that composites and decorators keep besides their status. -/
def Region.progress : Region G := fun slot _ =>
  slot.IsGame ∨ slot = .resumeIndex ∨ slot = .execCount

/-- Whether a note tells of nothing but a question to the gate of a node or a report. -/
def Note.Asks (id : NodeId) : Note → Prop
  | tested other _ _ => other = id
  | reported _ => True
  | entered _ | acted _ _ | executed _ _ => False

/-- A report does not ask anything else than a gate may. -/
theorem Note.IsReport.asks {note : Note} (h : note.IsReport) (id : NodeId) : note.Asks id := by
  cases note with
  | reported => trivial
  | entered | acted | tested | executed => exact h.elim

/-- What a gate asks is about its own node. -/
theorem Note.Asks.about {note : Note} {id : NodeId} (h : note.Asks id) :
    ∀ other ∈ note.node?, other = id := by
  cases note with
  | tested => simpa [Note.node?, Note.Asks] using h
  | reported => simp [Note.node?]
  | entered | acted | executed => exact h.elim

/-- A passage that depends neither on positions and counts nor on the game is tended. -/
theorem Passage.tends_of_asks {id : NodeId}
    (hasks : ∀ {before after : Agent G} {notes : List Note}, before.Stands after →
      before.Spares .progress after → (∀ note ∈ notes, note.Asks id) →
        passage.allows before notes after) : passage.Tends id where
  quiet htouches hnotes :=
    hasks htouches.stands (htouches.spares.mono fun _ _ => Or.inl)
      fun note hnote => (hnotes note hnote).asks id
  tested agent name holds := hasks (.refl agent) (.refl agent) (by simp [Note.Asks])
  position agent index :=
    hasks ⟨rfl, rfl, rfl, rfl, rfl, rfl⟩
      (agent.spares_remember _ .resumeIndex index (.inr (.inl rfl))) (by simp)
  unposition agent :=
    hasks ⟨rfl, rfl, rfl, rfl, rfl, rfl⟩ (agent.spares_forget _ (.inr (.inl rfl))) (by simp)
  count agent :=
    hasks ⟨rfl, rfl, rfl, rfl, rfl, rfl⟩
      (agent.spares_remember _ .execCount _ (.inr (.inr rfl))) (by simp)

namespace Node

/-- A walk takes a passage if the executions of the children do. -/
theorem walk_keeps {advance : Status} {children : List (Node G)}
    (h : ∀ child ∈ children, (child.execute rules kept elapsed).Keeps passage)
    (skip index : Nat) : (walk rules kept elapsed advance skip index children).Keeps passage :=
  passage.manner.walk h skip index

/-- A parallel run takes a passage if the executions of the children do. -/
theorem execute_all_keeps {children : List (Node G)}
    (h : ∀ child ∈ children, (child.execute rules kept elapsed).Keeps passage) :
    (executeAll rules kept elapsed children).Keeps passage :=
  passage.manner.execute_all h

/-- The end of a walk takes every passage that composites take. -/
theorem settle_walk_keeps {id : NodeId} (h : passage.Tends id) (exhausted : Status)
    (stop : Option (Nat × Status)) : (settleWalk id exhausted stop).Keeps passage := by
  rcases stop with _ | ⟨index, status⟩
  · exact (Play.keeps_change h.unposition).bind fun _ => Play.keeps_pure exhausted
  · exact (Play.keeps_change fun agent => h.position agent index).bind
      fun _ => Play.keeps_pure status

/-- The question whether a limit is used up takes every passage. -/
theorem spent_keeps {id : NodeId} (kind : DecoratorKind) :
    (spent id kind : Play G Bool).Keeps passage := by
  cases kind with
  | limit bound => exact Play.keeps_look _
  | _ => exact Play.keeps_pure false

/-- The count of a limit takes every passage that decorators take. -/
theorem count_child_keeps {id : NodeId} (h : passage.Tends id) (kind : DecoratorKind) :
    (countChild id kind : Play G Unit).Keeps passage := by
  cases kind with
  | limit bound => exact Play.keeps_change h.count
  | _ => exact Play.keeps_pure ()

/-- The answer to the result of a child takes every passage that decorators take. -/
theorem answer_child_keeps {node : Node G} (h : passage.Tends node.id) (kind : DecoratorKind)
    (result : Option Status) : (node.answerChild kind result).Keeps passage := by
  cases result with
  | none =>
      exact (Play.keeps_note fun agent =>
        h.quiet (.refl agent) (by simp [Note.IsReport])).bind fun _ => Play.keeps_pure _
  | some status => exact (count_child_keeps h kind).bind fun _ => Play.keeps_pure _

/-- The fresh entry of a composite or decorator takes every passage that these take. -/
theorem entry_keeps {node : Node G} (hinner : node.family ≠ .action)
    (h : passage.Tends node.id) : (node.entry rules).Keeps passage := by
  cases node with
  | composite head kind children =>
      cases kind with
      | sequence | priority => exact Play.keeps_change fun agent => h.position agent 0
      | parallel => exact Play.keeps_pure ()
  | decorator head kind child => exact Play.keeps_pure ()
  | timed | action => exact absurd rfl hinner

/-- An approach takes a passage if the gate and the entry do. -/
theorem approach_keeps {node : Node G} (hopen : (node.open rules).Keeps passage)
    (hentry : (node.entry rules).Keeps passage) : (node.approach rules).Keeps passage :=
  passage.manner.approach (Play.keeps_look _) hentry hopen

end Node

/-- Nodes tend their children in every passage that they tend. -/
theorem Passage.Tends.manner {node : Node G} (h : passage.Tends node.id) :
    passage.manner.Tends node where
  position := Play.keeps_look _
  stop := Node.settle_walk_keeps h
  spent := Node.spent_keeps
  answer := Node.answer_child_keeps h

namespace Node

/-- An execution of a composite or decorator ends with the settling of its result, and all
that comes before is a passage that the node tends and its children take. -/
theorem execute_settles (hrules : rules.Modest) {node : Node G} (hinner : node.family ≠ .action)
    (h : passage.Tends node.id)
    (hchildren : ∀ child ∈ node.children, (child.execute rules kept elapsed).Keeps passage)
    (agent : Agent G) :
    ∃ status last notes, node.execute rules kept elapsed agent =
        ⟨status, last.settle node.id status, notes ++ [.executed node.id status]⟩ ∧
      passage.allows agent notes last := by
  have happroach :=
    approach_keeps (node.open_keeps hrules h.toGates) (entry_keeps hinner h) agent
  cases hopen : (node.approach rules agent).value with
  | false => exact ⟨_, _, _, execute_inner_closed hinner hopen, happroach⟩
  | true =>
      have hlogic :=
        passage.manner.logic hinner h.manner hchildren (node.approach rules agent).agent
      exact ⟨_, _, _, execute_inner_open hinner hopen, passage.join happroach hlogic⟩

/-- A passage that the children of a composite or decorator take, and that the node itself
serves, is a passage of the node. -/
theorem execute_keeps (hrules : rules.Modest) {node : Node G} (hinner : node.family ≠ .action)
    (h : passage.Serves node.id)
    (hchildren : ∀ child ∈ node.children, (child.execute rules kept elapsed).Keeps passage) :
    (node.execute rules kept elapsed).Keeps passage := by
  intro agent
  obtain ⟨status, last, notes, heq, hbefore⟩ :=
    execute_settles hrules hinner h.toTends hchildren agent
  rw [heq]
  exact passage.join hbefore (h.conclude last status)

/-! ## Results -/

/-- The result of an execution is stored as the last status of the node. -/
theorem status?_execute (node : Node G) (rules : Rules G) (kept : NodeId → Bool)
    (elapsed : Nat) (agent : Agent G) :
    (node.execute rules kept elapsed agent).agent.status? node.id =
      some (node.execute rules kept elapsed agent).value := by
  have hvisit : ∀ run after, (node.visit rules (node.entry rules) run after agent).agent.status?
      node.id = some (node.visit rules (node.entry rules) run after agent).value := by
    intro run after
    cases hopen : (node.approach rules agent).value with
    | true => simp [visit_open hopen]
    | false => simp [visit_closed hopen]
  by_cases hleaf : node.family = .action
  · rw [execute_leaf hleaf]
    cases hwaiting : agent.waiting? node.id with
    | some status => simp [conclude]
    | none => exact hvisit _ _
  · rw [execute_inner hleaf]
    exact hvisit _ _

/-- After an execution the status of the node is the result. -/
theorem status_of_execute (node : Node G) (rules : Rules G) (kept : NodeId → Bool)
    (elapsed : Nat) (agent : Agent G) :
    (node.execute rules kept elapsed agent).agent.statusOf node.id =
      (node.execute rules kept elapsed agent).value :=
  congrArg (Option.getD · Status.unknown) (node.status?_execute rules kept elapsed agent)

end Node

end BehaviorTree
