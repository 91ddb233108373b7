import BehaviorTree.Proofs.Recording

/-!
# Passes in post-order

What one pass through a tree adds to a recording. `Visit.Executes` says for every kind of node
which children a visit executes and what it makes of their results; `Postorder` puts the events of
these children before the event of the node, one block after the other. `Node.execute_postorder`
shows that an execution records its visit in this order, no node twice, and that nodes without an
event keep what the engine has stored for them.
-/

namespace BehaviorTree

variable {G : Game}

/-! ## Games that keep to their own nodes -/

/-- What belongs to the nodes at and below a root, be it a leaf, a condition or a filter, touches
nothing but the selection, the entries under the node's own identity and the game's own kinds. -/
structure Rules.Private (rules : Rules G) (root : Node G) : Prop where
  enter : ∀ leaf id, (rules.enter leaf id).StaysIn (.ofLeaf id)
  act : ∀ leaf id elapsed, (rules.act leaf id elapsed).StaysIn (.ofLeaf id)
  test : ∀ test node, (rules.test test node).StaysIn (.ofLeaf node.id)
  sift : ∀ node ∈ root.preorder, ∀ name sieve, .game name sieve ∈ node.filters →
    (rules.sift sieve).StaysIn (.ofLeaf node.id)

/-- A game whose leaves answer by the clock alone keeps to its own nodes. -/
theorem Rules.clocked_private {Leaf : Type} (answer : Leaf → Nat → Status)
    (root : Node (Game.clocked Leaf)) : (Rules.clocked answer).Private root where
  enter leaf id agent := ⟨.refl agent, by simp [clocked]⟩
  act leaf id elapsed agent := ⟨.refl agent, by simp [clocked]⟩
  test := nofun
  sift _ _ _ := nofun

variable {rules : Rules G} {kept : NodeId → Bool} {elapsed : Nat} {passage : Passage G}
  {node root : Node G}

/-- A passage that is open to whatever keeps to a node is taken by the game at the node. -/
theorem Rules.Private.keep (h : rules.Private root) (hnode : node ∈ root.preorder)
    (hpassage : ∀ {before after : Agent G} {notes : List Note},
      before.Touches (.ofLeaf node.id) after → (∀ note ∈ notes, note.IsReport) →
        passage.allows before notes after) : rules.Keep passage node where
  enter leaf agent := hpassage (h.enter leaf node.id agent).1 (h.enter leaf node.id agent).2
  act leaf elapsed agent :=
    hpassage (h.act leaf node.id elapsed agent).1 (h.act leaf node.id elapsed agent).2
  test test agent := hpassage (h.test test node agent).1 (h.test test node agent).2
  sift name sieve hsieve agent :=
    hpassage (h.sift node hnode name sieve hsieve agent).1
      (h.sift node hnode name sieve hsieve agent).2

/-- A game that keeps to its own nodes below a root does so below every node there. -/
theorem Rules.Private.child (h : rules.Private root) (hnode : node ∈ root.preorder) :
    rules.Private node where
  enter := h.enter
  act := h.act
  test := h.test
  sift other hother := h.sift other (Node.preorder_trans hnode hother)

/-! ## The children that a visit executes -/

/-- Executions in a row: each finds the agent that the one before it has left. -/
def Consecutive (rules : Rules G) (kept : NodeId → Bool) (elapsed : Nat) :
    Agent G → List (Visit G) → Prop
  | _, [] => True
  | agent, turn :: rest =>
      turn.agent = agent ∧
        Consecutive rules kept elapsed (turn.node.execute rules kept elapsed agent).agent rest

/-- The turns of a walk: the children from the first on, up to one that does not come out with
`advance`. -/
structure Walked (rules : Rules G) (kept : NodeId → Bool) (elapsed : Nat) (advance : Status)
    (children : List (Node G)) (turns : List (Visit G)) : Prop where
  nodes : turns.map Visit.node <+: children
  advanced : ∀ turn ∈ turns.dropLast, turn.result rules kept elapsed = advance
  stopped : turns.map Visit.node ≠ children →
    ∃ last ∈ turns.getLast?, last.result rules kept elapsed ≠ advance

/-- The children that a visit executes, in order, and the status that it comes to: none for a
leaf, a node whose gate is closed and a limit that is used up; all for a parallel; for a sequence
or priority those from the resume position up to the first that does not let it go on; and the
only one, if there is one, for every other decorator. -/
inductive Visit.Executes (rules : Rules G) (kept : NodeId → Bool) (elapsed : Nat) :
    Visit G → List (Visit G) → Status → Prop where
  | leaf {node : Node G} {agent : Agent G} {status : Status} (hleaf : node.family = .action) :
      Executes rules kept elapsed ⟨node, agent⟩ [] status
  | blocked {node : Node G} {agent : Agent G} (hinner : node.family ≠ .action)
      (hclosed : (node.approach rules agent).value = false) :
      Executes rules kept elapsed ⟨node, agent⟩ [] .canNotExecute
  | parallel {head : Head G} {children : List (Node G)} {agent : Agent G}
      {turns : List (Visit G)} {status : Status} {near : Outcome G Bool}
      (hnear : near = (Node.composite head .parallel children).approach rules agent)
      (hopen : near.value = true) (hrow : Consecutive rules kept elapsed near.agent turns)
      (hall : turns.map Visit.node = children)
      (hstatus : status = .running ∨ status = .finished)
      (hrunning : status = .running ↔ ∃ turn ∈ turns, turn.result rules kept elapsed = .running) :
      Executes rules kept elapsed ⟨.composite head .parallel children, agent⟩ turns status
  | walk {head : Head G} {kind : CompositeKind} {children : List (Node G)} {agent : Agent G}
      {turns : List (Visit G)} {advance : Status} {near : Outcome G Bool}
      (hkind : kind.advance? = some advance)
      (hnear : near = (Node.composite head kind children).approach rules agent)
      (hopen : near.value = true) (hrow : Consecutive rules kept elapsed near.agent turns)
      (hwalked : Walked rules kept elapsed advance
        (children.drop (near.agent.resumeIndexOf head.id)) turns) :
      Executes rules kept elapsed ⟨.composite head kind children, agent⟩ turns
        (((turns.map (Visit.result rules kept elapsed)).find? (· ≠ advance)).getD advance)
  | spent {head : Head G} {bound : Nat} {child : Option (Node G)} {agent : Agent G}
      {near : Outcome G Bool}
      (hnear : near = (Node.decorator head (.limit bound) child).approach rules agent)
      (hopen : near.value = true) (hspent : bound ≤ near.agent.execCountOf head.id) :
      Executes rules kept elapsed ⟨.decorator head (.limit bound) child, agent⟩ [] .finished
  | decorator {head : Head G} {kind : DecoratorKind} {child : Option (Node G)} {agent : Agent G}
      {turns : List (Visit G)} {near : Outcome G Bool}
      (hnear : near = (Node.decorator head kind child).approach rules agent)
      (hopen : near.value = true)
      (hunspent : ∀ bound, kind = .limit bound → near.agent.execCountOf head.id < bound)
      (hrow : Consecutive rules kept elapsed near.agent turns)
      (honly : turns.map Visit.node = child.toList) :
      Executes rules kept elapsed ⟨.decorator head kind child, agent⟩ turns
        ((turns.head?.map fun turn => Node.reshape kind (turn.result rules kept elapsed)).getD
          .failed)

/-- The events of a visit in post-order: a block for every child that it executes, in order, and
directly after them its own. -/
inductive Postorder (rules : Rules G) (kept : NodeId → Bool) (elapsed tick : Nat) :
    Visit G → List TraceEvent → Prop where
  | visit {visit : Visit G} {turns : List (Visit G)} {blocks : List (List TraceEvent)}
      {status : Status} (hturns : visit.Executes rules kept elapsed turns status)
      (hstatus : status = visit.result rules kept elapsed)
      (hblocks : List.Forall₂ (Postorder rules kept elapsed tick) turns blocks) :
      Postorder rules kept elapsed tick visit
        (blocks.flatten ++ [⟨tick, visit.node.id, status⟩])

/-- Executions that are threaded come in a row. -/
theorem Threads.consecutive {turns : List (Visit G)} {before after : Agent G}
    {notes : List Note} (h : Threads rules kept elapsed turns before notes after) :
    Consecutive rules kept elapsed before turns := by
  induction turns generalizing before notes with
  | nil => trivial
  | cons turn rest ih =>
      obtain ⟨hagent, late, -, hrest⟩ := h
      exact ⟨hagent, ih hrest⟩

namespace Node

/-- The status that a walk stops at is the first that does not let it go on. -/
theorem walk_value (advance : Status) (skip index : Nat) (children : List (Node G))
    (agent : Agent G) :
    (walk rules kept elapsed advance skip index children agent).value.map Prod.snd =
      ((walkTurns rules kept elapsed advance skip children agent).map
        (Visit.result rules kept elapsed)).find? (· ≠ advance) := by
  induction children generalizing skip index agent with
  | nil => cases skip <;> rfl
  | cons child rest ih =>
      cases skip with
      | succ skip => exact ih skip (index + 1) agent
      | zero =>
          by_cases hstatus : (child.execute rules kept elapsed agent).value = advance
          · rw [walkTurns, if_pos hstatus, walk_advance hstatus]
            simpa [Visit.result, hstatus] using ih 0 (index + 1) _
          · rw [walkTurns, if_neg hstatus, walk_stop hstatus]
            simp [Visit.result, hstatus]

/-- The turns of a walk are the children from its start on, up to the first that stops it. -/
theorem walk_turns_walked (advance : Status) (skip : Nat) (children : List (Node G))
    (agent : Agent G) :
    Walked rules kept elapsed advance (children.drop skip)
      (walkTurns rules kept elapsed advance skip children agent) := by
  induction children generalizing skip agent with
  | nil => cases skip <;> exact ⟨by simp [walkTurns], by simp [walkTurns], by simp [walkTurns]⟩
  | cons child rest ih =>
      cases skip with
      | succ skip => exact ih skip agent
      | zero =>
          by_cases hstatus : (child.execute rules kept elapsed agent).value = advance
          · obtain ⟨hnodes, hadvanced, hstopped⟩ :=
              ih 0 (child.execute rules kept elapsed agent).agent
            rw [walkTurns, if_pos hstatus]
            generalize walkTurns rules kept elapsed advance 0 rest
              (child.execute rules kept elapsed agent).agent = later at hnodes hadvanced hstopped
            refine ⟨by simpa using hnodes, fun turn hturn => ?_, fun hne => ?_⟩
            · cases later with
              | nil => simp at hturn
              | cons next further =>
                  rcases List.mem_cons.1 hturn with rfl | hturn
                  · exact hstatus
                  · exact hadvanced turn hturn
            · obtain ⟨last, hlast, hresult⟩ := hstopped (by simpa using hne)
              refine ⟨last, ?_, hresult⟩
              rw [Option.mem_def] at hlast ⊢
              rw [List.getLast?_cons, hlast]
              rfl
          · rw [walkTurns, if_neg hstatus]
            exact ⟨by simp, by simp, fun _ => ⟨_, rfl, hstatus⟩⟩

/-- All children together are running if one of them is. -/
theorem execute_all_value (children : List (Node G)) (agent : Agent G) :
    (executeAll rules kept elapsed children agent).value = true ↔
      ∃ turn ∈ allTurns rules kept elapsed children agent,
        turn.result rules kept elapsed = .running := by
  induction children generalizing agent with
  | nil => simp [executeAll, allTurns]
  | cons child rest ih =>
      simp [executeAll, allTurns, ih, Visit.result]

/-- Every child of a parallel has its turn. -/
theorem all_turns_nodes (children : List (Node G)) (agent : Agent G) :
    (allTurns rules kept elapsed children agent).map Visit.node = children := by
  induction children generalizing agent with
  | nil => rfl
  | cons child rest ih => simp [allTurns, ih]

/-- A decorator answers with the reshaped result of its child, and fails without one. -/
theorem answer_child_value (node : Node G) (kind : DecoratorKind) (result : Option Status)
    (agent : Agent G) :
    (node.answerChild kind result agent).value = (result.map (reshape kind)).getD .failed := by
  cases result <;> rfl

/-- The children that the logic of a composite or decorator executes. -/
theorem logic_executes (hinner : node.family ≠ .action) {agent : Agent G} {near : Outcome G Bool}
    (hnear : near = node.approach rules agent) (hopen : near.value = true) :
    Visit.Executes rules kept elapsed ⟨node, agent⟩
      (node.logicTurns rules kept elapsed near.agent)
      (node.logic rules kept elapsed near.agent).value := by
  obtain ⟨early, reached, late, -, hthreads, -⟩ :=
    logic_threads rules kept elapsed hinner (Passage.silent_tends node.id).manner near.agent
  have hrow := hthreads.consecutive
  cases node with
  | composite head kind children =>
      cases hkind : kind.advance? with
      | some advance =>
          rw [logicTurns, hkind] at hrow ⊢
          rw [logic_walk hkind, settle_walk_value, walk_value]
          exact .walk hkind hnear hopen hrow (walk_turns_walked advance _ children near.agent)
      -- Without a status that lets a walk go on the composite is a parallel.
      | none =>
          have hparallel : kind = .parallel := by cases kind <;> simp_all [CompositeKind.advance?]
          subst hparallel
          have hvalue : ((composite head .parallel children).logic rules kept elapsed
              near.agent).value =
                if (executeAll rules kept elapsed children near.agent).value then .running
                else .finished := by rw [logic_all hkind]
          have hrunning : (executeAll rules kept elapsed children near.agent).value = true ↔ _ :=
            execute_all_value children near.agent
          rw [hvalue]
          refine .parallel hnear hopen hrow (all_turns_nodes children near.agent) ?_ ?_
          · split <;> simp
          · refine Iff.trans ?_ hrunning
            split <;> simp_all
  | decorator head kind child =>
      rw [logicTurns] at hrow ⊢
      cases hspent : (spent head.id kind near.agent).value with
      -- Only a limit can be used up.
      | true =>
          rw [logic_spent hspent]
          cases kind with
          | limit bound => exact .spent hnear hopen (of_decide_eq_true hspent)
          | inverter | succeed | fail | repeater | untilFail | untilSuccess | root =>
              simp [spent] at hspent
      | false =>
          rw [hspent] at hrow
          have hunspent : ∀ bound, kind = .limit bound →
              near.agent.execCountOf head.id < bound := by
            rintro bound rfl
            simpa [spent] using hspent
          rw [logic_unspent hspent, answer_child_value]
          have hexecutes := Visit.Executes.decorator hnear hopen hunspent hrow
            (all_turns_nodes child.toList near.agent)
          cases child <;> exact hexecutes
  | timed | action => exact absurd rfl hinner

/-- A leaf gives no turns. -/
theorem turns_leaf (hleaf : node.family = .action) (agent : Agent G) :
    node.turns rules kept elapsed agent = [] :=
  List.eq_nil_iff_forall_not_mem.2 fun turn hturn => by
    simpa [children_leaf hleaf] using turns_mem hturn

/-- The turns of a visit are the children that it executes. -/
theorem turns_executes (node : Node G) (agent : Agent G) :
    Visit.Executes rules kept elapsed ⟨node, agent⟩ (node.turns rules kept elapsed agent)
      (node.execute rules kept elapsed agent).value := by
  by_cases hleaf : node.family = .action
  · rw [turns_leaf hleaf]
    exact .leaf hleaf
  · cases hopen : (node.approach rules agent).value with
    | true =>
        rw [turns, if_pos hopen, execute_inner_open hleaf hopen]
        exact logic_executes hleaf rfl hopen
    | false =>
        rw [turns, hopen, execute_inner_closed hleaf hopen]
        exact .blocked hleaf hopen

end Node

/-! ## The order of the events -/

/-- The execution of a leaf ends with the settling of its result, and all that comes before is a
passage of the leaf's work. -/
theorem Passage.Works.leaf_settles (h : passage.Works kept node) (hrules : rules.Keep passage node)
    (elapsed : Nat) (hleaf : node.family = .action) (agent : Agent G) :
    ∃ status last notes, node.execute rules kept elapsed agent =
        ⟨status, last.settle node.id status, notes ++ [.executed node.id status]⟩ ∧
      passage.allows agent notes last := by
  rw [Node.execute_leaf hleaf]
  cases agent.waiting? node.id with
  | some status =>
      exact ⟨status, _, [], rfl, h.forget agent .completed (by simp) (by simp)⟩
  | none =>
      have hacts := h.acts hrules elapsed hleaf
      have happroach := Node.approach_keeps (h.gate hrules) (h.entry hrules) agent
      cases hopen : (node.approach rules agent).value with
      | true =>
          simp only [Node.visit_open hopen]
          refine ⟨_, _, _, by simp only [← List.append_assoc]; rfl, ?_⟩
          exact passage.join (passage.join happroach (hacts.logic _)) (hacts.follow _ _)
      | false =>
          simp only [Node.visit_closed hopen, hleaf, ↓reduceIte]
          refine ⟨_, _, _, rfl, ?_⟩
          simpa using passage.join happroach (h.release (node.approach rules agent).agent)

/-- What the engine does at a node between settlements leaves the recording alone. -/
theorem Passage.silent_works (kept : NodeId → Bool) (node : Node G) :
    (Passage.silent (G := G)).Works kept node where
  remember _ _ _ _ _ := rfl
  forget _ _ _ _ := rfl
  note _ _ hwhat := by simp [silent, executions, hwhat]
  select _ _ := rfl
  follow _ _ := rfl
  release _ := rfl

/-- What the engine does at one node leaves the entries of another alone. -/
theorem Drift.entries_works (kept : NodeId → Bool) {id : NodeId} (hne : node.id ≠ id) :
    (Drift.entries (G := G) id).passage.Works kept node where
  remember agent slot value _ _ :=
    agent.spares_remember _ slot value (.inr (.inr fun h => hne (NodeId.raw_inj.1 h)))
  forget agent _ _ _ := agent.spares_forget _ (.inr (.inr fun h => hne (NodeId.raw_inj.1 h)))
  note agent _ _ := .refl agent
  select _ _ _ _ _ := rfl
  follow agent status := agent.spares_follow kept _ node status (.inr (.inl rfl))
  release agent := agent.spares_release _ node.id (.inr (.inl rfl))

/-- A game that keeps to its own nodes leaves the recording alone. -/
theorem Rules.Private.keep_silent (h : rules.Private root) (hnode : node ∈ root.preorder) :
    rules.Keep .silent node :=
  h.keep hnode fun _ hnotes => executions_eq_nil_of_reports hnotes

/-- A game that keeps to its own nodes leaves the entries of the others alone. -/
theorem Rules.Private.keep_entries (h : rules.Private root) (hnode : node ∈ root.preorder)
    {id : NodeId} (hne : node.id ≠ id) : rules.Keep (Drift.entries id).passage node := by
  refine h.keep hnode fun htouches _ => htouches.spares.mono fun slot key howned => ?_
  rcases howned with hgame | ⟨-, rfl⟩
  · exact .inl hgame
  · exact .inr (.inr fun hraw => hne (NodeId.raw_inj.1 hraw))

/-- The executions of threaded turns are those of each turn, one after the other. -/
theorem Threads.executions_eq {turns : List (Visit G)} {before after : Agent G}
    {notes : List Note} (h : Threads rules kept elapsed turns before notes after) :
    executions notes = turns.flatMap fun turn =>
      executions (turn.node.execute rules kept elapsed turn.agent).notes := by
  induction turns generalizing before notes with
  | nil =>
      obtain ⟨rfl, -⟩ := h
      rfl
  | cons turn rest ih =>
      obtain ⟨rfl, late, rfl, hrest⟩ := h
      rw [executions_append, List.flatMap_cons, ih hrest]

namespace Node

/-- The executions that an execution tells of: those of its turns, and then its own. -/
theorem executions_turns (hrules : rules.Private node) (kept : NodeId → Bool) (elapsed : Nat)
    (agent : Agent G) :
    executions (node.execute rules kept elapsed agent).notes =
      ((node.turns rules kept elapsed agent).flatMap fun turn =>
        executions (turn.node.execute rules kept elapsed turn.agent).notes) ++
        [(node.id, (node.execute rules kept elapsed agent).value)] := by
  have hkeep := hrules.keep_silent node.self_mem_preorder
  have hworks := Passage.silent_works kept node
  by_cases hleaf : node.family = .action
  · obtain ⟨status, last, notes, heq, hsilent⟩ :=
      hworks.leaf_settles hkeep elapsed hleaf agent
    have hsilent : executions notes = [] := hsilent
    rw [heq, turns_leaf hleaf, executions_append, hsilent]
    rfl
  · obtain ⟨notes, reached, late, last, status, heq, hearly, hturns, hlate⟩ :=
      execute_threads kept elapsed hleaf (Passage.silent_tends node.id) (hworks.gate hkeep) agent
    have hearly : executions (node.approach rules agent).notes = [] := hearly
    have hlate : executions late = [] := hlate
    rw [heq]
    simp only [executions_append, hearly, hlate, List.nil_append, hturns.executions_eq]
    rfl

/-- What holds of an execution once it holds of its turns holds of every execution. -/
theorem by_turns (rules : Rules G) (kept : NodeId → Bool) (elapsed : Nat)
    {motive : Node G → Agent G → Prop}
    (step : ∀ node agent, (∀ turn ∈ node.turns rules kept elapsed agent,
      motive turn.node turn.agent) → motive node agent) (node : Node G) (agent : Agent G) :
    motive node agent := by
  induction node using by_family generalizing agent with
  | inner node _ ih =>
      exact step node agent fun turn hturn => ih turn.node (turns_mem hturn) turn.agent
  | leaf node hleaf =>
      refine step node agent fun turn hturn => ?_
      rw [turns_leaf hleaf] at hturn
      cases hturn

/-- An execution tells of its visit in post-order. -/
theorem execute_postorder (hrules : rules.Private node) (kept : NodeId → Bool) (elapsed tick : Nat)
    (agent : Agent G) :
    Postorder rules kept elapsed tick ⟨node, agent⟩
      (stamped tick (node.execute rules kept elapsed agent).notes) := by
  induction node, agent using by_turns rules kept elapsed with
  | step node agent ih =>
      have hblocks : List.Forall₂ (Postorder rules kept elapsed tick)
          (node.turns rules kept elapsed agent)
          ((node.turns rules kept elapsed agent).map fun turn =>
            stamped tick (turn.node.execute rules kept elapsed turn.agent).notes) := by
        rw [List.forall₂_map_right_iff, List.forall₂_same]
        exact fun turn hturn =>
          ih turn hturn (hrules.child (child_mem_preorder (turns_mem hturn)))
      have hevents := Postorder.visit (node.turns_executes agent) rfl hblocks
      rw [stamped, executions_turns hrules]
      simpa [stamped, List.map_flatMap, List.flatMap_def, Function.comp_def] using hevents

/-! ## No node twice, and nothing else touched -/

end Node

/-- A visit executes children of its node, none of them twice. -/
theorem Visit.Executes.sublist {visit : Visit G} {turns : List (Visit G)} {status : Status}
    (h : visit.Executes rules kept elapsed turns status) :
    (turns.map Visit.node).Sublist visit.node.children := by
  cases h with
  | leaf | blocked | spent => exact List.nil_sublist _
  | parallel hnear hopen hrow hall hstatus hrunning => exact hall ▸ List.Sublist.refl _
  | walk hkind hnear hopen hrow hwalked =>
      exact hwalked.nodes.sublist.trans (List.drop_sublist _ _)
  | decorator hnear hopen hunspent hrow honly => exact honly ▸ List.Sublist.refl _

namespace Node

/-- The identities of the nodes that an execution tells of. -/
theorem executed_turns (hrules : rules.Private node) (kept : NodeId → Bool) (elapsed : Nat)
    (agent : Agent G) :
    (executions (node.execute rules kept elapsed agent).notes).map Prod.fst =
      ((node.turns rules kept elapsed agent).flatMap fun turn =>
        (executions (turn.node.execute rules kept elapsed turn.agent).notes).map Prod.fst) ++
        [node.id] := by
  simp [executions_turns hrules, List.map_flatMap]

/-- An execution tells of no node outside its subtree. -/
theorem executed_subset (hrules : rules.Private node) (kept : NodeId → Bool) (elapsed : Nat)
    (agent : Agent G) :
    (executions (node.execute rules kept elapsed agent).notes).map Prod.fst ⊆ node.ids := by
  induction node, agent using by_turns rules kept elapsed with
  | step node agent ih =>
      rw [executed_turns hrules]
      intro id hid
      rcases List.mem_append.1 hid with hid | hid
      · obtain ⟨turn, hturn, hid⟩ := List.mem_flatMap.1 hid
        have hchild := child_mem_preorder (turns_mem hturn)
        exact ids_subset hchild (ih turn hturn (hrules.child hchild) hid)
      · rw [List.mem_singleton.1 hid]
        exact node.id_mem_ids

/-- Where identities are distinct an execution tells of no node twice. -/
theorem executed_nodup (hrules : rules.Private node) (hdistinct : node.Distinct)
    (kept : NodeId → Bool) (elapsed : Nat) (agent : Agent G) :
    ((executions (node.execute rules kept elapsed agent).notes).map Prod.fst).Nodup := by
  induction node, agent using by_turns rules kept elapsed with
  | step node agent ih =>
      have hwithin : ∀ turn ∈ node.turns rules kept elapsed agent,
          (executions (turn.node.execute rules kept elapsed turn.agent).notes).map Prod.fst ⊆
            turn.node.ids := fun turn hturn =>
        executed_subset (hrules.child (child_mem_preorder (turns_mem hturn))) kept elapsed _
      have hdisjoint : (node.turns rules kept elapsed agent).Pairwise fun one other =>
          ∀ id ∈ one.node.ids, id ∉ other.node.ids :=
        List.pairwise_map.1 (hdistinct.children_disjoint.sublist
          (node.turns_executes agent).sublist)
      rw [executed_turns hrules, List.nodup_append]
      refine ⟨List.nodup_flatMap.2 ⟨fun turn hturn => ?_, ?_⟩, List.nodup_singleton _, ?_⟩
      · exact ih turn hturn (hrules.child (child_mem_preorder (turns_mem hturn)))
          (hdistinct.child (turns_mem hturn))
      · refine hdisjoint.imp_of_mem fun hone hother hids id hidOne hidOther => ?_
        exact hids id (hwithin _ hone hidOne) (hwithin _ hother hidOther)
      · intro id hid other hother heq
        obtain ⟨turn, hturn, hid⟩ := List.mem_flatMap.1 hid
        rw [List.mem_singleton.1 hother] at heq
        exact hdistinct.id_not_mem (turns_mem hturn) (heq ▸ hwithin turn hturn hid)

end Node

/-- Threaded turns keep to a passage if each of them does. -/
theorem Threads.keeps {turns : List (Visit G)} {before after : Agent G} {notes : List Note}
    (h : Threads rules kept elapsed turns before notes after)
    (hturns : ∀ turn ∈ turns,
      let outcome := turn.node.execute rules kept elapsed turn.agent
      passage.allows turn.agent outcome.notes outcome.agent) :
    passage.allows before notes after := by
  induction turns generalizing before notes with
  | nil =>
      obtain ⟨rfl, rfl⟩ := h
      exact passage.stay _
  | cons turn rest ih =>
      obtain ⟨rfl, late, rfl, hrest⟩ := h
      exact passage.join (hturns turn List.mem_cons_self)
        (ih hrest fun other hother => hturns other (List.mem_cons_of_mem turn hother))

namespace Node

/-- What the engine has stored for a node that an execution does not tell of stays as it was. -/
theorem execute_untold (hrules : rules.Private node) (kept : NodeId → Bool) (elapsed : Nat)
    (agent : Agent G) {id : NodeId}
    (hid : id ∉ (executions (node.execute rules kept elapsed agent).notes).map Prod.fst) :
    agent.Spares (.elsewhere id) (node.execute rules kept elapsed agent).agent := by
  induction node, agent using by_turns rules kept elapsed with
  | step node agent ih =>
      rw [executed_turns hrules, List.mem_append, not_or, List.mem_singleton] at hid
      obtain ⟨hturns, hne⟩ := hid
      have hkeep := hrules.keep_entries node.self_mem_preorder (Ne.symm hne)
      have hworks := Drift.entries_works kept (Ne.symm hne)
      have hsettle : ∀ (last : Agent G) (status : Status),
          last.Spares (.elsewhere id) (last.settle node.id status) := fun last status =>
        last.spares_settle _ status (.inr (.inr fun hraw => hne (NodeId.raw_inj.1 hraw).symm))
      by_cases hleaf : node.family = .action
      · obtain ⟨status, last, notes, heq, hlast⟩ := hworks.leaf_settles hkeep elapsed hleaf agent
        rw [heq]
        exact Agent.Spares.trans hlast (hsettle last status)
      · obtain ⟨notes, reached, late, last, status, heq, hearly, hthreads, hlate⟩ :=
          execute_threads kept elapsed hleaf (Drift.entries_serves (Ne.symm hne)).toTends
            (hworks.gate hkeep) agent
        have hmiddle : (Drift.entries id).passage.allows _ notes reached :=
          hthreads.keeps fun turn hturn =>
            ih turn hturn (hrules.child (child_mem_preorder (turns_mem hturn))) fun hmem =>
              hturns (List.mem_flatMap.2 ⟨turn, hturn, hmem⟩)
        rw [heq]
        exact (Agent.Spares.trans hearly (Agent.Spares.trans hmiddle hlate)).trans
          (hsettle last status)

/-- An execution is recorded by its notes. -/
theorem execute_traced (hrules : rules.Private node) (kept : NodeId → Bool) (elapsed : Nat) :
    (node.execute rules kept elapsed).Keeps .traced := by
  refine Passage.traced_hears.execute fun other hother => hrules.keep hother ?_
  intro before after notes htouches hnotes
  refine ⟨htouches.stands.ticks, ?_⟩
  simp [stamped, executions_eq_nil_of_reports hnotes, htouches.trace]

end Node

/-- A pass through a tree records every node that it executes once and in post-order, and leaves
alone what the engine has stored for any other node. -/
theorem root_pass_postorder {tree : Tree G} (hrules : rules.Private tree.toNode)
    (hdistinct : tree.toNode.Distinct) {agent : Agent G} {log : TraceLog}
    (htrace : agent.trace = some log) (kept : NodeId → Bool) (elapsed : Nat) :
    let outcome := Agent.pass rules kept elapsed tree agent
    ∃ events, outcome.agent.trace = some (log.extend events) ∧
      Postorder rules kept elapsed agent.ticks ⟨tree.toNode, agent⟩ events ∧
      (events.map TraceEvent.node).Nodup ∧
      ∀ id, id ∉ events.map TraceEvent.node →
        outcome.agent.status? id = agent.status? id ∧
          agent.Spares (.elsewhere id) outcome.agent := by
  have htraced := Node.execute_traced hrules kept elapsed agent
  have hnodes : (stamped agent.ticks
      (tree.toNode.execute rules kept elapsed agent).notes).map TraceEvent.node =
        (executions (tree.toNode.execute rules kept elapsed agent).notes).map Prod.fst := by
    simp [stamped, Function.comp_def]
  refine ⟨_, htraced.trace.trans (by rw [htrace, Option.map_some]),
    Node.execute_postorder hrules kept elapsed agent.ticks agent, ?_, fun id hid => ?_⟩
  · rw [hnodes]
    exact Node.executed_nodup hrules hdistinct kept elapsed agent
  · rw [hnodes] at hid
    have hspares := Node.execute_untold hrules kept elapsed agent hid
    exact ⟨hspares .status id.raw (by simp [Region.elsewhere, Slot.IsGame]), hspares⟩

/-- The first leaf of the sequence finishes and the second runs, then the sequence and the top
come to their results. -/
theorem root_pass_postorder_errand :
    let agent := (Agent.fresh 7).enableTrace.nextTick
    let outcome := Agent.pass (Rules.clocked deadline) (fun _ => false) 2 errandTree agent
    let events : List TraceEvent :=
      [⟨1, ⟨0⟩, .finished⟩, ⟨1, ⟨1⟩, .running⟩, ⟨1, ⟨2⟩, .running⟩, ⟨1, ⟨3⟩, .running⟩]
    outcome.agent.trace = some ⟨events⟩ ∧
      Postorder (Rules.clocked deadline) (fun _ => false) 2 1 ⟨errandTree.toNode, agent⟩
        events := by
  intro agent outcome events
  have hrecorded : outcome.agent.trace = some ⟨events⟩ := by decide +kernel
  obtain ⟨added, htrace, hpostorder, -⟩ :=
    root_pass_postorder (Rules.clocked_private deadline errandTree.toNode) errand_tree_distinct
      (rfl : agent.trace = some .empty) (fun _ => false) 2
  have hadded : added = events :=
    congrArg TraceLog.events (Option.some.inj (htrace.symm.trans hrecorded))
  exact ⟨hrecorded, hadded ▸ hpostorder⟩

end BehaviorTree
