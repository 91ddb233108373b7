import BehaviorTree.Proofs.Graft
import BehaviorTree.Proofs.Ungated

/-!
# Sequences and priorities are dual

A priority without a gate does the same as the inverter of the sequence of its inverted children.
`Duality.Law` relates what is stored on the two sides: the sequence runs while the priority does,
at the same position. As long as the children come out with results that an inverter takes back,
the two walks go on and stop together (`Duality.walk_meets`), so the priority and its dual are
executed in accord (`Duality.plain_accords`), and nobody sees which of them stands in a tree
(`dual_unseen`).
-/

namespace BehaviorTree

variable {G : Game} {rules : Rules G} {kept kept' : NodeId → Bool} {elapsed : Nat}

/-! ## A priority and its dual -/

/-- A place where a priority can be replaced by its dual: the identities of the priority, of the
outer inverter and of the sequence, and the children, each with the identity of its own inverter. -/
structure Duality (G : Game) where
  priority : NodeId
  outer : NodeId
  sequence : NodeId
  children : List (NodeId × Node G)

namespace Duality

/-- The priority of the children. -/
def plain (duality : Duality G) : Node G :=
  .composite ⟨duality.priority, none⟩ .priority (duality.children.map Prod.snd)

/-- The sequence of the inverted children. -/
def serial (duality : Duality G) : Node G :=
  .composite ⟨duality.sequence, none⟩ .sequence
    (duality.children.map fun pair => pair.2.inverted pair.1)

/-- The inverter of the sequence of the inverted children. -/
def dual (duality : Duality G) : Node G := duality.serial.inverted duality.outer

/-- The identities of the nodes that stand on one side only. -/
def ids (duality : Duality G) : List NodeId :=
  duality.priority :: duality.outer :: duality.sequence :: duality.children.map Prod.fst

/-- A child comes out with a result that an inverter takes back. -/
def Fair (duality : Duality G) (execution : NodeId × Status) : Prop :=
  execution.1 ∈ duality.children.map (fun pair => pair.2.id) → execution.2.IsDecided

/-- The law between the two sides: the sequence runs while the priority does, at the same
position. -/
structure Law (duality : Duality G) (one other : Agent G) : Prop where
  running : other.statusOf duality.sequence = .running ↔ one.statusOf duality.priority = .running
  position : one.statusOf duality.priority = .running →
    other.resumeIndexOf duality.sequence = one.resumeIndexOf duality.priority

/-- What stands around the new nodes: children that use none of their identities, and inverters
that do not use that of the sequence. -/
structure Around (duality : Duality G) (tree flat : Tree G) : Prop where
  children : ∀ pair ∈ duality.children, pair.2.Aloof duality.ids tree flat
  inverters : ∀ pair ∈ duality.children, pair.1 ≠ duality.sequence
  outer : duality.outer ≠ duality.sequence

variable {duality : Duality G} {tree flat : Tree G} {one other one' other' : Agent G}

/-- The priority stands on one side only. -/
theorem priority_mem (duality : Duality G) : duality.priority ∈ duality.ids := List.mem_cons_self

/-- The outer inverter stands on one side only. -/
theorem outer_mem (duality : Duality G) : duality.outer ∈ duality.ids :=
  List.mem_cons_of_mem _ List.mem_cons_self

/-- The sequence stands on one side only. -/
theorem sequence_mem (duality : Duality G) : duality.sequence ∈ duality.ids :=
  List.mem_cons_of_mem _ (List.mem_cons_of_mem _ List.mem_cons_self)

/-- The inverters of the children stand on one side only. -/
theorem inverter_mem {pair : NodeId × Node G} (h : pair ∈ duality.children) :
    pair.1 ∈ duality.ids :=
  List.mem_cons_of_mem _ (List.mem_cons_of_mem _ (List.mem_cons_of_mem _ (List.mem_map_of_mem h)))

/-! ## The law -/

/-- The law speaks of the priority on one side and of the sequence on the other. -/
theorem Law.move (h : duality.Law one other)
    (hstatus : one'.statusOf duality.priority = one.statusOf duality.priority)
    (hposition : one'.resumeIndexOf duality.priority = one.resumeIndexOf duality.priority)
    (hstatus' : other'.statusOf duality.sequence = other.statusOf duality.sequence)
    (hposition' : other'.resumeIndexOf duality.sequence = other.resumeIndexOf duality.sequence) :
    duality.Law one' other' where
  running := by rw [hstatus, hstatus', h.running]
  position := by
    rw [hstatus, hposition, hposition']
    exact h.position

/-- The law between the two sides speaks of nothing but what is kept under the new identities. -/
theorem law_local (duality : Duality G) : LocalLaw duality.ids duality.Law where
  move h hone hother := h.move
    (hone.status_of_eq (Region.not_beyond duality.priority_mem (by simp)))
    (hone.resume_index_of_eq (Region.not_beyond duality.priority_mem (by simp)))
    (hother.status_of_eq (Region.not_beyond duality.sequence_mem (by simp)))
    (hother.resume_index_of_eq (Region.not_beyond duality.sequence_mem (by simp)))

/-- Joined agents may settle a result for a new node on the other side that is not the sequence. -/
theorem settle_joined (h : Agent.Joined duality.ids tree flat duality.Law one other) {id : NodeId}
    (hid : id ∈ duality.ids) (hne : id ≠ duality.sequence) (status : Status) :
    Agent.Joined duality.ids tree flat duality.Law one (other.settle id status) where
  toBeside := h.toBeside.apart (.refl one) (other.stands_settle id status) rfl rfl (.refl one)
    (other.spares_settle _ status (Region.among_of_mem hid (by simp)))
  law := h.law.move rfl rfl (other.status_of_settle_of_ne status hne.symm)
    (by rw [Agent.resume_index_of_eq, Agent.resume_index_of_eq, Agent.position?_settle])

/-! ## Executions on the two sides -/

/-- What an execution of a child and one of its inverter have in common. -/
structure Meeting (duality : Duality G) (tree flat : Tree G) (one other : Outcome G Status) :
    Prop where
  decided : one.value.IsDecided
  value : other.value = one.value.invert
  calls : calls other.notes = calls one.notes
  joined : Agent.Joined duality.ids tree flat duality.Law one.agent other.agent

variable (kept') in
/-- A child and its inverter do the same, but for the result. -/
theorem child_meets (hrules : rules.Local [tree]) (haround : duality.Around tree flat)
    {pair : NodeId × Node G} (hpair : pair ∈ duality.children)
    (h : Agent.Joined duality.ids tree flat duality.Law one other)
    (hfair : ∀ execution ∈ executions (pair.2.execute rules kept elapsed one).notes,
      duality.Fair execution) :
    Meeting duality tree flat (pair.2.execute rules kept elapsed one)
      ((pair.2.inverted pair.1).execute rules kept' elapsed other) := by
  have hchild : pair.2.InAccord (fun _ => True) rules kept kept' elapsed
      (Agent.Joined duality.ids tree flat duality.Law) pair.2 :=
    (haround.children pair hpair).accords hrules duality.law_local
  obtain ⟨hvalue, hcalls, hjoined⟩ := hchild.always one other h
  obtain ⟨early, hexecuted⟩ := pair.2.executions_execute rules kept elapsed one
  have hdecided : (pair.2.execute rules kept elapsed one).value.IsDecided := by
    refine hfair (pair.2.id, _) ?_ (List.mem_map_of_mem hpair)
    rw [hexecuted]
    exact List.mem_append_right early (List.mem_singleton_self _)
  rw [Node.execute_inverted]
  refine ⟨hdecided, congrArg Status.invert hvalue, ?_, ?_⟩
  · rw [calls_append, hcalls]
    exact List.append_nil _
  · exact settle_joined hjoined (inverter_mem hpair) (haround.inverters pair hpair) _

/-- What a walk through the children and one through their inverters have in common. -/
structure WalkMeeting (duality : Duality G) (tree flat : Tree G)
    (one other : Outcome G (Option (Nat × Status))) : Prop where
  decided : ∀ stop ∈ one.value, stop.2.IsDecided
  value : other.value = one.value.map fun stop => (stop.1, stop.2.invert)
  calls : calls other.notes = calls one.notes
  joined : Agent.Joined duality.ids tree flat duality.Law one.agent other.agent

variable (kept') in
/-- A walk through the children goes together with one through their inverters. -/
theorem walk_meets (hrules : rules.Local [tree]) (haround : duality.Around tree flat)
    {pairs : List (NodeId × Node G)} (hpairs : ∀ pair ∈ pairs, pair ∈ duality.children)
    (skip index : Nat) (h : Agent.Joined duality.ids tree flat duality.Law one other)
    (hfair : ∀ execution ∈ executions (Node.walk rules kept elapsed .failed skip index
      (pairs.map Prod.snd) one).notes, duality.Fair execution) :
    WalkMeeting duality tree flat
      (Node.walk rules kept elapsed .failed skip index (pairs.map Prod.snd) one)
      (Node.walk rules kept' elapsed .finished skip index
        (pairs.map fun pair => pair.2.inverted pair.1) other) := by
  induction pairs generalizing skip index one other with
  | nil => cases skip <;> exact ⟨nofun, rfl, rfl, h⟩
  | cons pair rest ih =>
      obtain ⟨hpair, hrest⟩ := List.forall_mem_cons.1 hpairs
      rw [List.map_cons] at hfair
      rw [List.map_cons, List.map_cons]
      cases skip with
      | succ skip => exact ih hrest skip (index + 1) h hfair
      | zero =>
          -- The priority goes on after a failure, the sequence after the success that it is turned
          -- into.
          by_cases hgoes : (pair.2.execute rules kept elapsed one).value = .failed
          · rw [Node.walk_advance hgoes] at hfair ⊢
            dsimp only at hfair
            rw [executions_append, List.forall_mem_append] at hfair
            have hmeets := child_meets kept' hrules haround hpair h hfair.1
            have hgoes' : ((pair.2.inverted pair.1).execute rules kept' elapsed other).value =
                .finished := by
              rw [hmeets.value, hgoes]
              rfl
            rw [Node.walk_advance hgoes']
            have hlater := ih hrest 0 (index + 1) hmeets.joined hfair.2
            refine ⟨hlater.decided, hlater.value, ?_, hlater.joined⟩
            dsimp only
            rw [calls_append, calls_append, hmeets.calls, hlater.calls]
          · rw [Node.walk_stop hgoes] at hfair ⊢
            have hmeets := child_meets kept' hrules haround hpair h hfair
            have hgoes' : ((pair.2.inverted pair.1).execute rules kept' elapsed other).value ≠
                .finished := by
              rw [hmeets.value, Ne, Status.invert_eq_finished hmeets.decided]
              exact hgoes
            rw [Node.walk_stop hgoes']
            refine ⟨fun stop hstop => ?_, ?_, hmeets.calls, hmeets.joined⟩
            · obtain rfl := Option.some.inj hstop
              exact hmeets.decided
            · dsimp only
              rw [hmeets.value]
              rfl

/-! ## The priority and the outer inverter -/

/-- Under the law the priority and the sequence are entered at the same position. -/
theorem Law.begun (h : duality.Law one other) :
    (other.begun duality.sequence).resumeIndexOf duality.sequence =
      (one.begun duality.priority).resumeIndexOf duality.priority := by
  by_cases hrunning : one.statusOf duality.priority = .running
  · rw [Agent.resume_index_of_begun_of_running hrunning,
      Agent.resume_index_of_begun_of_running (h.running.2 hrunning), h.position hrunning]
  · rw [Agent.resume_index_of_begun_of_fresh hrunning,
      Agent.resume_index_of_begun_of_fresh (mt h.running.1 hrunning)]

/-- The priority and the sequence set themselves up side by side. -/
theorem begun_joined (h : Agent.Joined duality.ids tree flat duality.Law one other) :
    Agent.Joined duality.ids tree flat duality.Law (one.begun duality.priority)
      (other.begun duality.sequence) where
  toBeside := h.toBeside.begun duality.priority_mem duality.sequence_mem
  law :=
    { running := by rw [Agent.status_of_begun, Agent.status_of_begun, h.law.running]
      position := fun _ => h.law.begun }

namespace WalkMeeting

variable {stop stop' : Outcome G (Option (Nat × Status))}

/-- A walk comes out with a result that an inverter takes back, also if it went through. -/
theorem status_decided (h : WalkMeeting duality tree flat stop stop') :
    ((stop.value.map Prod.snd).getD .failed).IsDecided := by
  cases hvalue : stop.value with
  | none => exact .inr (.inr rfl)
  | some last => exact h.decided last hvalue

/-- The sequence comes out with the result of the priority inverted. -/
theorem status_eq (h : WalkMeeting duality tree flat stop stop') :
    (stop'.value.map Prod.snd).getD .finished =
      ((stop.value.map Prod.snd).getD .failed).invert := by
  rw [h.value]
  cases stop.value <;> rfl

/-- The two walks stop at the same position. -/
theorem position_eq (h : WalkMeeting duality tree flat stop stop') :
    (stop'.value.map Prod.fst).getD 0 = (stop.value.map Prod.fst).getD 0 := by
  rw [h.value]
  cases stop.value <;> rfl

/-- Once the walks are settled, the agents are under the law again. -/
theorem closed_joined (h : WalkMeeting duality tree flat stop stop') :
    Agent.Joined duality.ids tree flat duality.Law
      (stop.agent.closed duality.priority .failed stop.value)
      (stop'.agent.closed duality.sequence .finished stop'.value) where
  toBeside :=
    h.joined.toBeside.closed duality.priority_mem duality.sequence_mem .failed .finished _ _
  law :=
    { running := by
        rw [Agent.status_of_closed, Agent.status_of_closed, h.status_eq, Status.invert_eq_running]
      position := fun _ => by
        rw [Agent.resume_index_of_closed, Agent.resume_index_of_closed, h.position_eq] }

end WalkMeeting

/-- The priority is executed in accord with its dual, as long as the children come out with results
that an inverter takes back. -/
theorem plain_accords (hrules : rules.Local [tree]) (haround : duality.Around tree flat) :
    duality.plain.InAccord duality.Fair rules kept kept' elapsed
      (Agent.Joined duality.ids tree flat duality.Law) duality.dual := by
  intro one other h hfair
  have hpriority : CompositeKind.priority.advance? = some .failed := rfl
  have hsequence : CompositeKind.sequence.advance? = some .finished := rfl
  rw [plain, Node.execute_ungated hpriority] at hfair ⊢
  rw [dual, Node.execute_inverted, serial, Node.execute_ungated hsequence]
  dsimp only at hfair ⊢
  rw [executions_append, List.forall_mem_append] at hfair
  -- The walks start at one position, and where they stop the two composites are settled at one.
  rw [h.law.begun]
  have hmeets := walk_meets kept' hrules haround (fun _ hpair => hpair) _ 0
    (begun_joined h) hfair.1
  refine ⟨?_, ?_, ?_⟩
  · rw [hmeets.status_eq, Status.invert_invert hmeets.status_decided]
  · rw [calls_append, calls_append, calls_append, hmeets.calls]
    exact List.append_nil _
  · exact settle_joined hmeets.closed_joined duality.outer_mem haround.outer _

/-! ## The dual in a tree -/

/-- The inverted children are the children of the sequence. -/
theorem inverted_mem {pair : NodeId × Node G} (h : pair ∈ duality.children) :
    pair.2.inverted pair.1 ∈ duality.serial.children :=
  List.mem_map_of_mem (f := fun pair : NodeId × Node G => pair.2.inverted pair.1) h

/-- The sequence is the child of the outer inverter. -/
theorem serial_mem (duality : Duality G) : duality.serial ∈ duality.dual.children :=
  List.mem_singleton_self _

/-- The children are those of the priority. -/
theorem child_mem {pair : NodeId × Node G} (h : pair ∈ duality.children) :
    pair.2 ∈ duality.plain.children := List.mem_map_of_mem h

/-- A child stands below its own inverter. -/
theorem child_mem_inverted (pair : NodeId × Node G) :
    pair.2 ∈ (pair.2.inverted pair.1).preorder :=
  Node.child_mem_preorder (List.mem_singleton_self pair.2)

/-- Every one of the identities is that of the priority or of a node of the dual that is no leaf. -/
theorem inner_of_mem_ids {id : NodeId} (h : id ∈ duality.ids) :
    id = duality.priority ∨
      ∃ node ∈ duality.dual.preorder, node.family ≠ .action ∧ node.id = id := by
  have hserial : duality.serial ∈ duality.dual.preorder :=
    Node.child_mem_preorder duality.serial_mem
  rcases List.mem_cons.1 h with rfl | h
  · exact .inl rfl
  refine .inr ?_
  rcases List.mem_cons.1 h with rfl | h
  · exact ⟨duality.dual, Node.self_mem_preorder _, by simp [dual, Node.inverted, Node.family], rfl⟩
  rcases List.mem_cons.1 h with rfl | h
  · exact ⟨duality.serial, hserial, by simp [serial, Node.family], rfl⟩
  · obtain ⟨pair, hpair, rfl⟩ := List.mem_map.1 h
    exact ⟨pair.2.inverted pair.1,
      Node.preorder_trans hserial (Node.child_mem_preorder (inverted_mem hpair)),
      by simp [Node.inverted, Node.family], rfl⟩

/-- No leaf is lost. -/
theorem leaf_mem_dual {leaf : Node G} (hmem : leaf ∈ duality.plain.preorder)
    (hleaf : leaf.family = .action) : leaf ∈ duality.dual.preorder := by
  rcases Node.mem_preorder.1 hmem with rfl | ⟨child, hchild, hlow⟩
  · cases hleaf
  obtain ⟨pair, hpair, rfl⟩ := List.mem_map.1 hchild
  refine Node.preorder_trans (Node.child_mem_preorder duality.serial_mem) ?_
  refine Node.preorder_trans (Node.child_mem_preorder (inverted_mem hpair)) ?_
  exact Node.preorder_trans (child_mem_inverted pair) hlow

/-- Where no identity occurs twice, the children use none of the identities. -/
theorem around (hplain : duality.plain.Distinct) (hdual : duality.dual.Distinct)
    (hmem : duality.plain ∈ tree.toNode.preorder)
    (hshares : ∀ leaf ∈ tree.toNode.preorder, leaf.family = .action →
      flat.contains leaf.id = true) : duality.Around tree flat := by
  have hserial : duality.serial.Distinct := hdual.child duality.serial_mem
  have houter : duality.outer ∉ duality.serial.ids := hdual.id_not_mem duality.serial_mem
  have hsequence : ∀ pair ∈ duality.children,
      duality.sequence ∉ (pair.2.inverted pair.1).ids :=
    fun pair hpair => hserial.id_not_mem (inverted_mem hpair)
  refine ⟨fun pair hpair => ?_, fun pair hpair heq => ?_, fun heq => ?_⟩
  · have hlow : ∀ id ∈ pair.2.ids, id ∈ (pair.2.inverted pair.1).ids :=
      fun _ hid => Node.ids_subset (child_mem_inverted pair) hid
    refine .of_not_mem
      (Node.preorder_trans hmem (Node.child_mem_preorder (child_mem hpair))) hshares ?_
    intro id hid hchild
    rcases List.mem_cons.1 hid with rfl | hid
    · exact hplain.id_not_mem (child_mem hpair) hchild
    rcases List.mem_cons.1 hid with rfl | hid
    · exact houter (Node.ids_subset (Node.child_mem_preorder (inverted_mem hpair)) (hlow _ hchild))
    rcases List.mem_cons.1 hid with rfl | hid
    · exact hsequence pair hpair (hlow _ hchild)
    · -- An inverter whose identity stands below another one would be that one.
      obtain ⟨other, hother, rfl⟩ := List.mem_map.1 hid
      have hsame : other.2.inverted other.1 = pair.2.inverted pair.1 :=
        hserial.child_unique (inverted_mem hother) (inverted_mem hpair)
          (Node.inverted other.1 other.2).id_mem_ids (hlow _ hchild)
      have hid : other.1 = pair.1 := congrArg Node.id hsame
      exact (hserial.child (inverted_mem hpair)).id_not_mem (List.mem_singleton_self _)
        (hid ▸ hchild)
  · exact hsequence pair hpair (heq ▸ (pair.2.inverted pair.1).id_mem_ids)
  · exact houter (heq ▸ duality.serial.id_mem_ids)

/-- A leaf carries another identity than the new nodes. -/
theorem leaf_not_mem_ids (hplain : duality.plain.Distinct) (hdual : duality.dual.Distinct)
    {leaf : Node G} (hmem : leaf ∈ duality.plain.preorder) (hleaf : leaf.family = .action) :
    leaf.id ∉ duality.ids := by
  intro hid
  rcases inner_of_mem_ids hid with heq | ⟨node, hnode, hinner, heq⟩
  · exact hplain.leaf_id_ne hmem hleaf (Node.self_mem_preorder _) (by simp [plain, Node.family]) heq
  · exact hdual.leaf_id_ne (leaf_mem_dual hmem hleaf) hleaf hnode hinner heq.symm

/-- A tree and one in which a priority is replaced by its dual are executed in accord. -/
theorem graft (h : duality.plain.Grafts duality.dual tree.toNode flat.toNode)
    (hrules : rules.Local [tree]) (hshallow : rules.Shallow) (hdistinct : tree.toNode.Distinct)
    (hdistinct' : flat.toNode.Distinct) :
    Graft duality.Fair rules duality.ids tree flat duality.Law := by
  have hplain : duality.plain.Distinct := hdistinct.of_mem_preorder h.old_mem
  have hdual : duality.dual.Distinct := hdistinct'.of_mem_preorder h.new_mem
  refine h.graft hrules hshallow hdistinct duality.law_local (fun _ => leaf_mem_dual)
    (fun id hid hmem => ?_) (fun _ => leaf_not_mem_ids hplain hdual) fun kept kept' elapsed => ?_
  · rcases inner_of_mem_ids hid with rfl | ⟨node, hnode, -, rfl⟩
    · exact duality.plain.id_mem_ids
    · exact h.ids_subset_old hdistinct' (Node.mem_ids.2 ⟨node, hnode, rfl⟩) hmem
  · exact plain_accords hrules (around hplain hdual h.old_mem (h.shares fun _ => leaf_mem_dual))

end Duality

/-- Nobody sees whether a priority without a gate is replaced by the inverter of the sequence of its
inverted children, also without gates: whatever the rest of the tree, as long as the children come
out running, finished or failed, one sees the same of an agent that runs the tree as of one that
runs the other, command by command the same calls of leaves and conditions in the same order, the
same status, the same selection and the same current action. -/
theorem dual_unseen {tree flat : Tree G} {duality : Duality G} (hrules : rules.Local [tree])
    (hshallow : rules.Shallow) (hdistinct : tree.toNode.Distinct)
    (hdistinct' : flat.toNode.Distinct)
    (hgrafts : duality.plain.Grafts duality.dual tree.toNode flat.toNode)
    {commands : List (Command G)} (hcommands : ∀ command ∈ commands, command.LeavesTree)
    (entity : EntityId) (kept : NodeId → Bool)
    (hdecided : ∀ execution ∈ executions (Command.playAll rules
      (.setBehavior kept tree :: commands) (Agent.fresh entity)).notes,
      execution.1 ∈ duality.children.map (fun pair => pair.2.id) → execution.2.IsDecided) :
    Command.scenes rules kept (.setBehavior kept tree :: commands) (Agent.fresh entity) =
      Command.scenes rules kept (.setBehavior kept flat :: commands) (Agent.fresh entity) :=
  (Duality.graft hgrafts hrules hshallow hdistinct hdistinct').unseen hcommands entity kept
    ⟨⟨nofun, nofun⟩, nofun⟩ hdecided

/-- A leaf that runs on ticks up to some length and then comes to an end. -/
def patience (leaf : Nat × Status) (elapsed : Nat) : Status :=
  if elapsed ≤ leaf.1 then .running else leaf.2

/-- Behind a first leaf, a priority of a leaf that fails and of a must-complete leaf. -/
def askingTree : Tree (Game.clocked (Nat × Status)) where
  head := ⟨⟨9⟩, none⟩
  name := "asking"
  child := some (.composite ⟨⟨8⟩, none⟩ .sequence
    [.action ⟨⟨0⟩, none⟩ "Approach" false (0, .finished),
      .composite ⟨⟨3⟩, none⟩ .priority
        [.action ⟨⟨1⟩, none⟩ "Ask" false (1, .failed),
          .action ⟨⟨2⟩, none⟩ "Wait" true (2, .finished)]])

/-- `askingTree` with the dual of the priority in its place. -/
def dualTree : Tree (Game.clocked (Nat × Status)) where
  head := ⟨⟨9⟩, none⟩
  name := "asking"
  child := some (.composite ⟨⟨8⟩, none⟩ .sequence
    [.action ⟨⟨0⟩, none⟩ "Approach" false (0, .finished),
      Node.inverted ⟨4⟩ (.composite ⟨⟨5⟩, none⟩ .sequence
        [Node.inverted ⟨6⟩ (.action ⟨⟨1⟩, none⟩ "Ask" false (1, .failed)),
          Node.inverted ⟨7⟩ (.action ⟨⟨2⟩, none⟩ "Wait" true (2, .finished))])])

/-- The place of the priority in `askingTree`. -/
def askingDuality : Duality (Game.clocked (Nat × Status)) where
  priority := ⟨3⟩
  outer := ⟨4⟩
  sequence := ⟨5⟩
  children := [(⟨6⟩, .action ⟨⟨1⟩, none⟩ "Ask" false (1, .failed)),
    (⟨7⟩, .action ⟨⟨2⟩, none⟩ "Wait" true (2, .finished))]

/-- The dual of the priority stands in the place of the priority, and nothing else differs. -/
theorem asking_tree_grafts :
    askingDuality.plain.Grafts askingDuality.dual askingTree.toNode dualTree.toNode :=
  .decorator (.composite .here _ _ [_] []) _ _

/-- The priority runs over several updates at each of its leaves in turn, and the result of the
second one, executed ahead of the tree, is handed over to it. -/
theorem dual_unseen_asking :
    let commands := [1, 2, 2, 3, 1].map (Command.update fun _ => false)
    let scenes := Command.scenes (Rules.clocked patience) (fun _ => false)
      (.setBehavior (fun _ => false) askingTree :: commands) (Agent.fresh 7)
    scenes.map (·.status) = [.unknown, .running, .running, .running, .finished, .running] ∧
      scenes = Command.scenes (Rules.clocked patience) (fun _ => false)
        (.setBehavior (fun _ => false) dualTree :: commands) (Agent.fresh 7) := by
  intro commands scenes
  have hcommands : ∀ command ∈ commands, command.LeavesTree := by
    simp [commands, Command.LeavesTree]
  have hdecided : ∀ execution ∈ executions (Command.playAll (Rules.clocked patience)
      (.setBehavior (fun _ => false) askingTree :: commands) (Agent.fresh 7)).notes,
      execution.2.IsDecided := by
    unfold Status.IsDecided
    decide +kernel
  refine ⟨by rfl, ?_⟩
  exact dual_unseen (Rules.clocked_local patience [askingTree]) (Rules.clocked_shallow patience)
    (by unfold Node.Distinct; decide) (by unfold Node.Distinct; decide) asking_tree_grafts
    hcommands 7 _ fun execution hexecution _ => hdecided execution hexecution

end BehaviorTree
