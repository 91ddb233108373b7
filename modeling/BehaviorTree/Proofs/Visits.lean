import BehaviorTree.Proofs.Reach

/-!
# Visits

Which nodes an execution comes to, in the order in which their executions start, and the
agent that each of them finds (`Node.visits`). `Node.turns` lists the children of one node
that are executed; `Node.visits_eq` builds the visits of a node from those of its turns, and
`Node.execute_threads` says that nothing but the node's own doings comes before, between and
after the turns.

The notes of an execution tell of the same nodes, in the order in which their executions end
(`Node.executions_perm_visits`).
-/

namespace BehaviorTree

variable {G : Game}

/-- A node about to be executed, and the agent at that moment. -/
structure Visit (G : Game) where
  node : Node G
  agent : Agent G

/-- The status that the execution of a visited node returns. -/
def Visit.result (rules : Rules G) (kept : NodeId → Bool) (elapsed : Nat) (visit : Visit G) :
    Status :=
  (visit.node.execute rules kept elapsed visit.agent).value

/-! ## Executions among the notes -/

/-- The execution that a note tells of. -/
def Note.execution? : Note → Option (NodeId × Status)
  | executed id status => some (id, status)
  | entered _ | acted _ _ | tested _ _ _ | reported _ => none

/-- The executions that notes tell of, in the order in which they ended. -/
def executions (notes : List Note) : List (NodeId × Status) := notes.filterMap Note.execution?

/-- The executions in a succession of notes are those in its parts, one after the other. -/
theorem executions_append (early late : List Note) :
    executions (early ++ late) = executions early ++ executions late :=
  List.filterMap_append

/-- A report before other notes tells of no execution. -/
theorem executions_reported (diagnostic : Diagnostic) (notes : List Note) :
    executions (.reported diagnostic :: notes) = executions notes := rfl

/-- A report after other notes tells of no execution. -/
theorem executions_append_reported (notes : List Note) (diagnostic : Diagnostic) :
    executions (notes ++ [.reported diagnostic]) = executions notes := by
  rw [executions_append]
  exact List.append_nil _

/-- What goes before the logic of a node tells of no execution. -/
theorem executions_eq_nil_of_precedes {id : NodeId} {notes : List Note}
    (h : ∀ note ∈ notes, note.Precedes id) : executions notes = [] := by
  refine List.filterMap_eq_nil_iff.2 fun note hnote => ?_
  have hprecedes := h note hnote
  cases note with
  | entered | tested | reported => rfl
  | acted | executed => exact hprecedes.elim

/-- Doings that execute no node. -/
def Passage.silent : Passage G where
  allows _ notes _ := executions notes = []
  stay _ := rfl
  join hearly hlate := by
    rw [executions_append, hearly, hlate, List.append_nil]

/-- What a gate notes tells of no execution. -/
theorem executions_eq_nil_of_asks {id : NodeId} {notes : List Note}
    (h : ∀ note ∈ notes, note.Asks id) : executions notes = [] := by
  refine List.filterMap_eq_nil_iff.2 fun note hnote => ?_
  have hasks := h note hnote
  cases note with
  | tested | reported => rfl
  | entered | acted | executed => exact hasks.elim

/-- What the engine does at a node between executions executes nothing. -/
theorem Passage.silent_tends (id : NodeId) : (Passage.silent (G := G)).Tends id :=
  Passage.tends_of_asks fun _ _ hnotes => executions_eq_nil_of_asks hnotes

/-! ## Turns and visits -/

namespace Node

variable (rules : Rules G) (kept : NodeId → Bool) (elapsed : Nat)

/-- The children that a walk executes, in order. -/
def walkTurns (advance : Status) : Nat → List (Node G) → Agent G → List (Visit G)
  | _, [], _ => []
  | skip + 1, _ :: rest, agent => walkTurns advance skip rest agent
  | 0, child :: rest, agent =>
      let outcome := child.execute rules kept elapsed agent
      ⟨child, agent⟩ ::
        if outcome.value = advance then walkTurns advance 0 rest outcome.agent else []

/-- The nodes of a list, executed one after the other. -/
def allTurns : List (Node G) → Agent G → List (Visit G)
  | [], _ => []
  | child :: rest, agent =>
      ⟨child, agent⟩ :: allTurns rest (child.execute rules kept elapsed agent).agent

/-- The children that the logic of a node executes, in order. -/
def logicTurns : Node G → Agent G → List (Visit G)
  | composite head kind children, agent =>
      match kind.advance? with
      | some advance =>
          walkTurns rules kept elapsed advance (agent.resumeIndexOf head.id) children agent
      | none => allTurns rules kept elapsed children agent
  | decorator head kind child, agent =>
      if (spent head.id kind agent).value then []
      else allTurns rules kept elapsed child.toList agent
  | timed _ _ _, _ | action _ _ _ _, _ => []

/-- The children that an execution of a node executes, in order. -/
def turns (node : Node G) (agent : Agent G) : List (Visit G) :=
  let near := node.approach rules agent
  if near.value then node.logicTurns rules kept elapsed near.agent else []

mutual

/-- The nodes that an execution of a node comes to, the node itself first. -/
def visits : Node G → Agent G → List (Visit G)
  | node@(composite head kind children), agent =>
      let near := node.approach rules agent
      ⟨node, agent⟩ ::
        if near.value then
          match kind.advance? with
          | some advance =>
              walkVisits advance (near.agent.resumeIndexOf head.id) children near.agent
          | none => allVisits children near.agent
        else []
  | node@(decorator head kind child), agent =>
      let near := node.approach rules agent
      ⟨node, agent⟩ ::
        if near.value then
          if (spent head.id kind near.agent).value then [] else childVisits child near.agent
        else []
  | node@(timed _ _ _), agent | node@(action _ _ _ _), agent => [⟨node, agent⟩]

/-- What the children that a walk executes come to. -/
def walkVisits (advance : Status) : Nat → List (Node G) → Agent G → List (Visit G)
  | _, [], _ => []
  | skip + 1, _ :: rest, agent => walkVisits advance skip rest agent
  | 0, child :: rest, agent =>
      let outcome := child.execute rules kept elapsed agent
      visits child agent ++
        if outcome.value = advance then walkVisits advance 0 rest outcome.agent else []

/-- What the nodes of a list come to, executed one after the other. -/
def allVisits : List (Node G) → Agent G → List (Visit G)
  | [], _ => []
  | child :: rest, agent =>
      visits child agent ++ allVisits rest (child.execute rules kept elapsed agent).agent

/-- What the child of a decorator comes to, if there is one. -/
def childVisits : Option (Node G) → Agent G → List (Visit G)
  | none, _ => []
  | some child, agent => visits child agent

end

variable {rules kept elapsed}

/-- The visits of a walk are those of its turns. -/
theorem walk_visits_eq (advance : Status) (skip : Nat) (children : List (Node G))
    (agent : Agent G) :
    walkVisits rules kept elapsed advance skip children agent =
      (walkTurns rules kept elapsed advance skip children agent).flatMap
        fun turn => turn.node.visits rules kept elapsed turn.agent := by
  induction children generalizing skip agent with
  | nil => cases skip <;> rfl
  | cons child rest ih =>
      cases skip with
      | succ skip => exact ih skip agent
      | zero =>
          rw [walkVisits, walkTurns, List.flatMap_cons]
          refine congrArg _ ?_
          split
          · exact ih 0 _
          · rfl

/-- The visits of nodes in a row are those of their turns. -/
theorem all_visits_eq (children : List (Node G)) (agent : Agent G) :
    allVisits rules kept elapsed children agent =
      (allTurns rules kept elapsed children agent).flatMap
        fun turn => turn.node.visits rules kept elapsed turn.agent := by
  induction children generalizing agent with
  | nil => rfl
  | cons child rest ih => rw [allVisits, allTurns, List.flatMap_cons, ih]

/-- The visits of a decorator's child are those of the one node in a row. -/
theorem child_visits_eq (child : Option (Node G)) (agent : Agent G) :
    childVisits rules kept elapsed child agent =
      allVisits rules kept elapsed child.toList agent := by
  cases child with
  | none => rfl
  | some child => simp [childVisits, allVisits]

/-- An execution comes to the node itself and then to what its turns come to. -/
theorem visits_eq (node : Node G) (agent : Agent G) :
    node.visits rules kept elapsed agent =
      ⟨node, agent⟩ :: (node.turns rules kept elapsed agent).flatMap
        fun turn => turn.node.visits rules kept elapsed turn.agent := by
  cases node with
  | composite head kind children =>
      rw [visits, turns]
      refine congrArg _ ?_
      split
      · rw [logicTurns]
        cases kind.advance? with
        | some advance => exact walk_visits_eq advance _ children _
        | none => exact all_visits_eq children _
      · rfl
  | decorator head kind child =>
      rw [visits, turns]
      refine congrArg _ ?_
      split
      · rw [logicTurns]
        split
        · rfl
        · rw [child_visits_eq, all_visits_eq]
      · rfl
  | timed | action =>
      rw [visits, turns]
      simp [logicTurns]

/-- The turns of a walk are turns of the children. -/
theorem walk_turns_mem {advance : Status} {skip : Nat} {children : List (Node G)}
    {agent : Agent G} {turn : Visit G}
    (h : turn ∈ walkTurns rules kept elapsed advance skip children agent) :
    turn.node ∈ children := by
  induction children generalizing skip agent with
  | nil => cases skip <;> simp [walkTurns] at h
  | cons child rest ih =>
      cases skip with
      | succ skip => exact List.mem_cons_of_mem child (ih h)
      | zero =>
          rcases List.mem_cons.1 h with rfl | h
          · exact List.mem_cons_self
          · split at h
            · exact List.mem_cons_of_mem child (ih h)
            · cases h

/-- The turns of nodes in a row are turns of these nodes. -/
theorem all_turns_mem {children : List (Node G)} {agent : Agent G} {turn : Visit G}
    (h : turn ∈ allTurns rules kept elapsed children agent) : turn.node ∈ children := by
  induction children generalizing agent with
  | nil => cases h
  | cons child rest ih =>
      rcases List.mem_cons.1 h with rfl | h
      · exact List.mem_cons_self
      · exact List.mem_cons_of_mem child (ih h)

/-- The turns of a node are turns of its children. -/
theorem logic_turns_mem {node : Node G} {agent : Agent G} {turn : Visit G}
    (h : turn ∈ node.logicTurns rules kept elapsed agent) : turn.node ∈ node.children := by
  cases node with
  | composite head kind children =>
      cases kind with
      | sequence | priority => exact walk_turns_mem h
      | parallel => exact all_turns_mem h
  | decorator head kind child =>
      rw [logicTurns] at h
      split at h
      · cases h
      · exact all_turns_mem h
  | timed | action => cases h

/-- Turns are children's. -/
theorem turns_mem {node : Node G} {agent : Agent G} {turn : Visit G}
    (h : turn ∈ node.turns rules kept elapsed agent) : turn.node ∈ node.children := by
  rw [turns] at h
  split at h
  · exact logic_turns_mem h
  · cases h

/-- An execution of a leaf comes to the leaf alone. -/
theorem visits_leaf {node : Node G} (hleaf : node.family = .action) (agent : Agent G) :
    node.visits rules kept elapsed agent = [⟨node, agent⟩] := by
  cases node with
  | composite | decorator => simp [family] at hleaf
  | timed | action => rfl

/-- An execution comes to nothing outside its subtree. -/
theorem visits_mem {node : Node G} {agent : Agent G} {visit : Visit G}
    (h : visit ∈ node.visits rules kept elapsed agent) : visit.node ∈ node.preorder := by
  induction node using by_family generalizing agent with
  | inner node _ ih =>
      rw [visits_eq] at h
      rcases List.mem_cons.1 h with rfl | h
      · exact self_mem_preorder _
      · obtain ⟨turn, hturn, hvisit⟩ := List.mem_flatMap.1 h
        exact mem_preorder.2 (.inr ⟨_, turns_mem hturn, ih _ (turns_mem hturn) hvisit⟩)
  | leaf node hleaf =>
      rw [visits_leaf hleaf, List.mem_singleton] at h
      rw [h]
      exact node.self_mem_preorder

end Node

/-! ## What comes between the turns -/

/-- Executions with nothing in between: each starts from the agent that the one before has
left. -/
def Threads (rules : Rules G) (kept : NodeId → Bool) (elapsed : Nat) :
    List (Visit G) → Agent G → List Note → Agent G → Prop
  | [], before, notes, after => notes = [] ∧ after = before
  | turn :: rest, before, notes, after =>
      let outcome := turn.node.execute rules kept elapsed before
      turn.agent = before ∧
        ∃ late, notes = outcome.notes ++ late ∧
          Threads rules kept elapsed rest outcome.agent late after

namespace Node

variable {rules : Rules G} {kept : NodeId → Bool} {elapsed : Nat}

/-- A walk threads its turns. -/
theorem walk_threads (advance : Status) (skip index : Nat) (children : List (Node G))
    (agent : Agent G) :
    let outcome := walk rules kept elapsed advance skip index children agent
    Threads rules kept elapsed (walkTurns rules kept elapsed advance skip children agent) agent
      outcome.notes outcome.agent := by
  induction children generalizing skip index agent with
  | nil => cases skip <;> exact ⟨rfl, rfl⟩
  | cons child rest ih =>
      cases skip with
      | succ skip => exact ih skip (index + 1) agent
      | zero =>
          by_cases hstatus : (child.execute rules kept elapsed agent).value = advance
          · rw [walkTurns, if_pos hstatus, walk_advance hstatus]
            exact ⟨rfl, _, rfl, ih 0 (index + 1) _⟩
          · rw [walkTurns, if_neg hstatus, walk_stop hstatus]
            exact ⟨rfl, _, (List.append_nil _).symm, rfl, rfl⟩

/-- The execution of nodes in a row threads their turns. -/
theorem execute_all_threads (children : List (Node G)) (agent : Agent G) :
    let outcome := executeAll rules kept elapsed children agent
    Threads rules kept elapsed (allTurns rules kept elapsed children agent) agent
      outcome.notes outcome.agent := by
  induction children generalizing agent with
  | nil => exact ⟨rfl, rfl⟩
  | cons child rest ih =>
      refine ⟨rfl, _, rfl, ?_⟩
      simpa [executeAll] using ih (child.execute rules kept elapsed agent).agent

/-- The execution of a decorator's child threads the one turn. -/
theorem execute_child_threads (child : Option (Node G)) (agent : Agent G) :
    let outcome := executeChild rules kept elapsed child agent
    Threads rules kept elapsed (allTurns rules kept elapsed child.toList agent) agent
      outcome.notes outcome.agent := by
  cases child with
  | none => exact ⟨rfl, rfl⟩
  | some child => exact ⟨rfl, _, rfl, rfl, rfl⟩

variable {passage : Passage G}

/-- The logic of a composite or decorator: its turns, and what the node itself does after
them. -/
theorem logic_threads (rules : Rules G) (kept : NodeId → Bool) (elapsed : Nat) {node : Node G}
    (hinner : node.family ≠ .action) (h : passage.manner.Tends node) (agent : Agent G) :
    let outcome := node.logic rules kept elapsed agent
    ∃ early reached late, outcome.notes = early ++ late ∧
      Threads rules kept elapsed (node.logicTurns rules kept elapsed agent) agent early reached ∧
      passage.allows reached late outcome.agent := by
  cases node with
  | composite head kind children =>
      rw [logicTurns]
      cases hkind : kind.advance? with
      | some advance =>
          rw [logic_walk hkind]
          exact ⟨_, _, _, rfl, walk_threads advance _ 0 children agent, h.stop _ _ _⟩
      | none =>
          rw [logic_all hkind]
          exact ⟨_, _, [], (List.append_nil _).symm, execute_all_threads children agent,
            passage.stay _⟩
  | decorator head kind child =>
      rw [logicTurns]
      cases hspent : (spent head.id kind agent).value with
      | true =>
          rw [logic_spent hspent]
          exact ⟨[], agent, [], rfl, ⟨rfl, rfl⟩, passage.stay agent⟩
      | false =>
          rw [logic_unspent hspent]
          exact ⟨_, _, _, rfl, execute_child_threads child agent, h.answer kind _ _⟩
  | timed | action => exact absurd rfl hinner

/-- An execution of a composite or decorator in a passage that suits it: its turns, and what the
node itself does before and after them. -/
theorem execute_threads_of_tends (kept : NodeId → Bool) (elapsed : Nat) {node : Node G}
    (hinner : node.family ≠ .action) (h : passage.manner.Tends node)
    (hentry : (node.entry rules).Keeps passage) (hgate : (node.open rules).Keeps passage)
    (agent : Agent G) :
    let near := node.approach rules agent
    ∃ notes reached late last status,
      node.execute rules kept elapsed agent =
        ⟨status, last.settle node.id status,
          near.notes ++ (notes ++ (late ++ [.executed node.id status]))⟩ ∧
      passage.allows agent near.notes near.agent ∧
      Threads rules kept elapsed (node.turns rules kept elapsed agent) near.agent notes reached ∧
      passage.allows reached late last := by
  have happroach := approach_keeps hgate hentry agent
  rw [turns]
  cases hopen : (node.approach rules agent).value with
  | false =>
      rw [execute_inner_closed hinner hopen]
      exact ⟨[], _, [], _, _, rfl, happroach, ⟨rfl, rfl⟩, passage.stay _⟩
  | true =>
      obtain ⟨notes, reached, late, hnotes, hthreads, hlate⟩ :=
        logic_threads rules kept elapsed hinner h (node.approach rules agent).agent
      rw [execute_inner_open hinner hopen]
      refine ⟨notes, reached, late, _, _, congrArg (Outcome.mk _ _) ?_, happroach, hthreads, hlate⟩
      rw [hnotes, List.append_assoc, List.append_assoc]

/-- The same where the passage does not depend on what a composite or decorator stores. -/
theorem execute_threads (kept : NodeId → Bool) (elapsed : Nat) {node : Node G}
    (hinner : node.family ≠ .action) (h : passage.Tends node.id)
    (hgate : (node.open rules).Keeps passage) (agent : Agent G) :
    let near := node.approach rules agent
    ∃ notes reached late last status,
      node.execute rules kept elapsed agent =
        ⟨status, last.settle node.id status,
          near.notes ++ (notes ++ (late ++ [.executed node.id status]))⟩ ∧
      passage.allows agent near.notes near.agent ∧
      Threads rules kept elapsed (node.turns rules kept elapsed agent) near.agent notes reached ∧
      passage.allows reached late last :=
  execute_threads_of_tends kept elapsed hinner h.manner (entry_keeps hinner h) hgate agent

/-- A leaf is executed once, and nothing else is. -/
theorem LeafRun.executions_eq {node : Node G} {agent : Agent G} {outcome : Outcome G Status}
    (h : node.LeafRun rules kept agent outcome) :
    executions outcome.notes = [(node.id, outcome.value)] := by
  cases h with
  | claimed hwaiting => rfl
  | blocked hwaiting hnear | ran hwaiting hnear hdecided =>
      rw [executions_append, executions_eq_nil_of_precedes hnear.precede]
      rfl

end Node

/-- Threaded turns execute what they visit, in another order, if each of them does. -/
theorem Threads.perm_visits {turns : List (Visit G)} {before after : Agent G}
    {notes : List Note} (h : Threads rules kept elapsed turns before notes after)
    (hturns : ∀ turn ∈ turns,
      (executions (turn.node.execute rules kept elapsed turn.agent).notes).Perm
        ((turn.node.visits rules kept elapsed turn.agent).map fun visit =>
          (visit.node.id, visit.result rules kept elapsed))) :
    (executions notes).Perm ((turns.flatMap fun turn =>
      turn.node.visits rules kept elapsed turn.agent).map fun visit =>
        (visit.node.id, visit.result rules kept elapsed)) := by
  induction turns generalizing before notes with
  | nil =>
      obtain ⟨rfl, -⟩ := h
      exact .refl []
  | cons turn rest ih =>
      obtain ⟨rfl, late, rfl, hrest⟩ := h
      rw [executions_append, List.flatMap_cons, List.map_append]
      exact (hturns turn List.mem_cons_self).append
        (ih hrest fun other hother => hturns other (List.mem_cons_of_mem turn hother))

namespace Node

/-- The last thing that an execution tells of is its own result. -/
theorem executions_execute (node : Node G) (rules : Rules G) (kept : NodeId → Bool)
    (elapsed : Nat) (agent : Agent G) :
    ∃ early, executions (node.execute rules kept elapsed agent).notes =
      early ++ [(node.id, (node.execute rules kept elapsed agent).value)] := by
  have hsettled : ∀ (notes : List Note) (status : Status),
      executions (notes ++ [.executed node.id status]) = executions notes ++ [(node.id, status)] :=
    fun notes status => executions_append notes _
  have hvisit : ∀ run after, ∃ early,
      executions (node.visit rules (node.entry rules) run after agent).notes =
        early ++ [(node.id, (node.visit rules (node.entry rules) run after agent).value)] := by
    intro run after
    cases hopen : (node.approach rules agent).value with
    | true =>
        rw [visit_open hopen]
        simp only [← List.append_assoc, hsettled]
        exact ⟨_, rfl⟩
    | false =>
        rw [visit_closed hopen]
        exact ⟨_, hsettled _ _⟩
  by_cases hleaf : node.family = .action
  · rw [execute_leaf hleaf]
    cases agent.waiting? node.id with
    | some status => exact ⟨[], rfl⟩
    | none => exact hvisit _ _
  · rw [execute_inner hleaf]
    exact hvisit _ _

/-- What an execution comes to is what its notes tell of, with the same results in another
order. -/
theorem executions_perm (hrules : rules.Modest) (kept : NodeId → Bool) (elapsed : Nat)
    (node : Node G) (agent : Agent G) :
    (executions (node.execute rules kept elapsed agent).notes).Perm
      ((node.visits rules kept elapsed agent).map fun visit =>
        (visit.node.id, visit.result rules kept elapsed)) := by
  induction node using by_family generalizing agent with
  | inner node hinner ih =>
      obtain ⟨notes, reached, late, last, status, heq, hearly, hturns, hlate⟩ :=
        execute_threads kept elapsed hinner (Passage.silent_tends node.id)
          (node.open_keeps hrules (Passage.silent_tends node.id).toGates) agent
      have hmiddle := hturns.perm_visits fun turn hturn => ih _ (turns_mem hturn) _
      have hearly : executions (node.approach rules agent).notes = [] := hearly
      have hlate : executions late = [] := hlate
      have hresult : Visit.result rules kept elapsed ⟨node, agent⟩ = status := by
        rw [Visit.result, heq]
      rw [heq, visits_eq, List.map_cons, hresult]
      simp only [executions_append, hearly, hlate, List.nil_append]
      exact (List.perm_append_singleton _ _).trans (List.Perm.cons _ hmiddle)
  | leaf node hleaf =>
      rw [(execute_leaf_run hrules kept elapsed hleaf agent).executions_eq, visits_leaf hleaf]
      exact .refl _

/-- What an execution comes to is what its notes tell of, in another order. -/
theorem executions_perm_visits (hrules : rules.Modest) (kept : NodeId → Bool) (elapsed : Nat)
    (node : Node G) (agent : Agent G) :
    ((executions (node.execute rules kept elapsed agent).notes).map Prod.fst).Perm
      ((node.visits rules kept elapsed agent).map fun visit => visit.node.id) := by
  simpa [Function.comp_def] using (node.executions_perm hrules kept elapsed agent).map Prod.fst

end Node

end BehaviorTree
