import BehaviorTree.Proofs.Drift
import BehaviorTree.Proofs.Visits

/-!
# Where an execution resumes

A node whose gate stays open keeps track of its children (`Node.Tracks`): while a child is
running, so is the node, and a sequence or priority stands at that child. The one exception is
a limit that is used up, below which nothing is executed any more. An execution preserves this
throughout its subtree (`Node.execute_tracked`), whatever happens at other nodes.

A gate that closes breaks it, since the node is then blocked and its child stays as it was.
What holds at the visits of an execution holds therefore up to the first closed gate
(`HoldsWhile`), and only of the nodes that are `steady`, those whose gates one cares about.
-/

namespace BehaviorTree

variable {G : Game} {rules : Rules G} {kept : NodeId → Bool} {elapsed : Nat}
  {steady : Node G → Prop}

/-! ## Up to a visit -/

/-- What holds of each visit as long as all earlier ones are allowed. -/
def HoldsWhile (allowed holds : Visit G → Prop) : List (Visit G) → Prop
  | [] => True
  | visit :: later => holds visit ∧ (allowed visit → HoldsWhile allowed holds later)

namespace HoldsWhile

variable {allowed holds : Visit G → Prop} {early late : List (Visit G)}

/-- What holds up to the first visit that is not allowed holds of more visits if they follow allowed
ones. -/
theorem append (hearly : HoldsWhile allowed holds early)
    (hlate : (∀ visit ∈ early, allowed visit) → HoldsWhile allowed holds late) :
    HoldsWhile allowed holds (early ++ late) := by
  induction early with
  | nil => exact hlate (by simp)
  | cons visit early ih =>
      refine ⟨hearly.1, fun hallowed => ih (hearly.2 hallowed) fun hrest => hlate ?_⟩
      exact List.forall_mem_cons.2 ⟨hallowed, hrest⟩

/-- What holds up to the first visit that is not allowed holds of a visit behind allowed ones. -/
theorem holds_of_split {visit : Visit G} (h : HoldsWhile allowed holds (early ++ visit :: late))
    (hearly : ∀ visit ∈ early, allowed visit) : holds visit := by
  induction early with
  | nil => exact h.1
  | cons first early ih =>
      obtain ⟨hfirst, hrest⟩ := List.forall_mem_cons.1 hearly
      exact ih (h.2 hfirst) hrest

end HoldsWhile

/-- Whether the gate of a visited node lets the execution through. -/
def Visit.Admitted (rules : Rules G) (visit : Visit G) : Prop :=
  (visit.node.approach rules visit.agent).value = true

namespace Node

/-! ## Running children -/

/-- Whether a node goes through its children one at a time. -/
def Walks : Node G → Prop
  | composite _ kind _ => kind.advance? ≠ none
  | decorator _ _ _ | timed _ _ _ | action _ _ _ _ => False

/-- Whether a node leaves its child alone for good: a limit that is used up. -/
def Spent : Node G → Agent G → Prop
  | decorator head kind _, agent => (spent head.id kind agent).value = true
  | composite _ _ _, _ | timed _ _ _, _ | action _ _ _ _, _ => False

/-- A leaf, or a node without a gate that is no limit: once it runs, nothing ever keeps it from
its children. -/
def Unbarred : Node G → Prop
  | composite head _ _ => head.gate = none
  | decorator head kind _ => head.gate = none ∧ ∀ bound, kind ≠ .limit bound
  | timed _ _ _ | action _ _ _ _ => True

/-- A node above others that nothing keeps from its children has no gate. -/
theorem Unbarred.gate_eq_none {node : Node G} (h : node.Unbarred) (hinner : node.family ≠ .action) :
    node.gate = none := by
  cases node with
  | composite => exact h
  | decorator => exact h.1
  | timed | action => exact absurd rfl hinner

/-- A node that nothing keeps from its children never leaves them alone for good. -/
theorem Unbarred.not_spent {node : Node G} (h : node.Unbarred) (agent : Agent G) :
    ¬ node.Spent agent := by
  cases node with
  | composite | timed | action => exact fun hspent => hspent
  | decorator head kind child =>
      cases kind with
      | limit bound => exact absurd rfl (h.2 bound)
      | _ => exact Bool.false_ne_true

/-- A running node, which resumes from a given child if it goes through them one at a time. -/
def StandsAt (node : Node G) (index : Nat) (agent : Agent G) : Prop :=
  agent.statusOf node.id = .running ∧ (node.Walks → agent.position? node.id = some index)

/-- A node goes on standing at its child if its own entries are spared. -/
theorem StandsAt.of_spares {node : Node G} {index : Nat} {before after : Agent G}
    {region : Region G} (h : node.StandsAt index before) (hspares : before.Spares region after)
    (hstatus : ¬ region .status node.id.raw) (hposition : ¬ region .resumeIndex node.id.raw) :
    node.StandsAt index after := by
  rw [StandsAt, hspares.status_of_eq hstatus, hspares.position?_eq hposition]
  exact h

/-- While a child is running the node stands at that child; else the child is left alone for
good. -/
def Tracks (node : Node G) (agent : Agent G) : Prop :=
  ∀ index child, node.children[index]? = some child → agent.statusOf child.id = .running →
    node.StandsAt index agent ∨ node.Spent agent

/-- Every steady node at or below a node keeps track of its children. -/
def Tracked (steady : Node G → Prop) (node : Node G) (agent : Agent G) : Prop :=
  ∀ other ∈ node.preorder, steady other → other.Tracks agent

/-- What keeps track of a tree keeps track of each part of it. -/
theorem Tracked.of_mem {node low : Node G} {agent : Agent G} (h : node.Tracked steady agent)
    (hlow : low ∈ node.preorder) : low.Tracked steady agent :=
  fun other hother => h other (preorder_trans hlow hother)

/-- A limit that is used up stays so while its count does not fall. -/
theorem Spent.mono {node : Node G} {before after : Agent G} (h : node.Spent before)
    (hcount : (Drift.counts node.id).rel before after) : node.Spent after := by
  cases node with
  | decorator head kind child =>
      cases kind with
      | limit bound =>
          have hbound : bound ≤ before.execCountOf head.id := by simpa [Spent, spent] using h
          have hbound' : bound ≤ after.execCountOf head.id := Nat.le_trans hbound hcount
          simpa [Spent, spent] using hbound'
      | _ => exact h
  | composite | timed | action => exact h.elim

/-- Keeping track is a matter of the entries of a node and of which of its children run. -/
theorem Tracks.congr {node : Node G} {before after : Agent G} (h : node.Tracks before)
    (hself : (Drift.entries node.id).rel before after)
    (hchildren : ∀ child ∈ node.children, after.statusOf child.id = .running →
      before.statusOf child.id = .running) : node.Tracks after := by
  intro index child hindex hrunning
  have hbefore := hchildren child (List.mem_of_getElem? hindex) hrunning
  rcases h index child hindex hbefore with hstands | hspent
  · exact .inl (hstands.of_spares hself (by simp [Region.elsewhere, Slot.IsGame])
      (by simp [Region.elsewhere, Slot.IsGame]))
  · exact .inr (hspent.mono
      (Drift.counts_of_spares hself (by simp [Region.elsewhere, Slot.IsGame])))

/-- A tree whose entries have not changed is kept track of as before. -/
theorem Tracked.congr {node : Node G} {before after : Agent G} (h : node.Tracked steady before)
    (hids : ∀ id ∈ node.ids, (Drift.entries id).rel before after) :
    node.Tracked steady after := by
  intro other hother hsteady
  refine (h other hother hsteady).congr (hids _ (mem_ids.2 ⟨other, hother, rfl⟩))
    fun child hchild hrunning => ?_
  have hid : child.id ∈ node.ids :=
    mem_ids.2 ⟨child, preorder_trans hother (child_mem_preorder hchild), rfl⟩
  rwa [← Agent.Spares.status_of_eq (hids child.id hid) (by simp [Region.elsewhere, Slot.IsGame])]

/-- A tree is kept track of by the context alone. -/
theorem Tracked.of_context {node : Node G} {before after : Agent G} (h : node.Tracked steady before)
    (hcontext : after.context = before.context) : node.Tracked steady after :=
  h.congr fun _ _ slot key _ => by rw [hcontext]

/-! ## Walks -/

/-- An execution elsewhere leaves the status of a node alone. -/
theorem status_of_execute_of_not_mem (hrules : rules.Modest) (kept : NodeId → Bool)
    (elapsed : Nat) {node : Node G} {id : NodeId} (hid : id ∉ node.ids) (agent : Agent G) :
    (node.execute rules kept elapsed agent).agent.statusOf id = agent.statusOf id :=
  Agent.Spares.status_of_eq (Drift.execute_entries hrules kept elapsed hid agent)
    (by simp [Region.elsewhere, Slot.IsGame])

/-- So does a walk through children elsewhere. -/
theorem status_of_walk_of_not_mem (hrules : rules.Modest) {children : List (Node G)} {id : NodeId}
    (hid : ∀ child ∈ children, id ∉ child.ids) (advance : Status) (skip index : Nat)
    (agent : Agent G) :
    (walk rules kept elapsed advance skip index children agent).agent.statusOf id =
      agent.statusOf id := by
  have hkeeps : (walk rules kept elapsed advance skip index children).Keeps
      (Drift.entries id).passage :=
    walk_keeps (fun child hchild => Drift.execute_entries hrules kept elapsed (hid child hchild))
      skip index
  exact Agent.Spares.status_of_eq (hkeeps agent) (by simp [Region.elsewhere, Slot.IsGame])

/-- If at most the child that a walk starts with was running, then a child that is running
afterwards is the one that the walk stopped at. -/
theorem walk_running (hrules : rules.Modest) {advance : Status} (hadvance : advance ≠ .running)
    {children : List (Node G)}
    (hdisjoint : children.Pairwise fun left right => ∀ id ∈ left.ids, id ∉ right.ids)
    {skip : Nat} (index : Nat) {agent : Agent G}
    (hbefore : ∀ place child, children[place]? = some child →
      agent.statusOf child.id = .running → place = skip) :
    let outcome := walk rules kept elapsed advance skip index children agent
    ∀ place child, children[place]? = some child →
      outcome.agent.statusOf child.id = .running →
        outcome.value = some (index + place, .running) := by
  induction children generalizing skip index agent with
  | nil => simp
  | cons first rest ih =>
      obtain ⟨hfirst, hrest⟩ := List.pairwise_cons.1 hdisjoint
      have hapart : ∀ skip index agent, (walk rules kept elapsed advance skip index rest
          agent).agent.statusOf first.id = agent.statusOf first.id :=
        status_of_walk_of_not_mem hrules
          (fun child hchild => hfirst child hchild first.id first.id_mem_ids) advance
      cases skip with
      | succ skip =>
          intro outcome place child hplace hrunning
          cases place with
          | zero =>
              obtain rfl := Option.some.inj hplace
              have hstood : agent.statusOf first.id = .running :=
                (hapart skip (index + 1) agent).symm.trans hrunning
              exact absurd (hbefore 0 first rfl hstood) (by omega)
          | succ place =>
              have hstop := ih hrest (index + 1)
                (fun place child hplace hrunning => by
                  have := hbefore (place + 1) child hplace hrunning
                  omega) place child hplace hrunning
              rwa [Nat.add_right_comm, Nat.add_assoc] at hstop
      | zero =>
          intro outcome place child hplace hrunning
          have hlast := first.status_of_execute rules kept elapsed agent
          -- Only the first child may have been running, so none of the rest is.
          have hidle : ∀ (place : Nat) (child : Node G), rest[place]? = some child →
              (first.execute rules kept elapsed agent).agent.statusOf child.id ≠ .running := by
            intro place child hplace hrunning
            have hmem : child ∈ rest := List.mem_of_getElem? hplace
            have hid : child.id ∉ first.ids := fun hid =>
              hfirst child hmem child.id hid child.id_mem_ids
            rw [status_of_execute_of_not_mem hrules kept elapsed hid] at hrunning
            exact absurd (hbefore (place + 1) child hplace hrunning) (by omega)
          by_cases hstatus : (first.execute rules kept elapsed agent).value = advance
          · have hwalk : outcome = _ := walk_advance hstatus index rest
            rw [hwalk] at hrunning ⊢
            dsimp only at hrunning ⊢
            cases place with
            | zero =>
                obtain rfl := Option.some.inj hplace
                rw [hapart, hlast, hstatus] at hrunning
                exact absurd hrunning hadvance
            | succ place =>
                have hstop := ih hrest (index + 1)
                  (fun place child hplace hrunning => absurd hrunning (hidle place child hplace))
                  place child hplace hrunning
                rwa [Nat.add_right_comm, Nat.add_assoc] at hstop
          · have hwalk : outcome = _ := walk_stop hstatus index rest
            rw [hwalk] at hrunning ⊢
            dsimp only at hrunning ⊢
            cases place with
            | zero =>
                obtain rfl := Option.some.inj hplace
                rw [← hlast, hrunning]
                rfl
            | succ place => exact absurd hrunning (hidle place child hplace)

/-- The children of a parallel that are running afterwards are those that came out running. -/
theorem execute_all_running (hrules : rules.Modest) {children : List (Node G)}
    (hdisjoint : children.Pairwise fun left right => ∀ id ∈ left.ids, id ∉ right.ids)
    (agent : Agent G) :
    let outcome := executeAll rules kept elapsed children agent
    ∀ child ∈ children, outcome.agent.statusOf child.id = .running → outcome.value = true := by
  induction children generalizing agent with
  | nil => simp
  | cons first rest ih =>
      obtain ⟨hfirst, hrest⟩ := List.pairwise_cons.1 hdisjoint
      intro outcome child hchild hrunning
      have hlast := first.status_of_execute rules kept elapsed agent
      rcases List.mem_cons.1 hchild with rfl | hchild
      · have hkeeps := execute_all_keeps (fun other hother =>
          Drift.execute_entries hrules kept elapsed (hfirst other hother child.id child.id_mem_ids))
          (child.execute rules kept elapsed agent).agent
        have hapart : outcome.agent.statusOf child.id = _ :=
          Agent.Spares.status_of_eq hkeeps (by simp [Region.elsewhere, Slot.IsGame])
        rw [hapart, hlast] at hrunning
        simp [outcome, executeAll, hrunning]
      · have hall := ih hrest _ child hchild hrunning
        simp [outcome, executeAll, hall]

/-- A decorator's child is running afterwards if that is the result it hands up. -/
theorem execute_child_running {child : Option (Node G)} (agent : Agent G) :
    let outcome := executeChild rules kept elapsed child agent
    ∀ node ∈ child, outcome.agent.statusOf node.id = .running →
      outcome.value = some .running := by
  rintro outcome node hnode hrunning
  obtain rfl := Option.mem_def.1 hnode
  have hlast := node.status_of_execute rules kept elapsed agent
  have houtcome : outcome = ⟨some (node.execute rules kept elapsed agent).value,
      (node.execute rules kept elapsed agent).agent,
      (node.execute rules kept elapsed agent).notes⟩ := by
    simp [outcome, executeChild]
  rw [houtcome] at hrunning ⊢
  rw [← hlast, hrunning]

/-! ## The logic of a node -/

/-- What a decorator makes of the result of its child changes no status. -/
theorem status_of_answer_child (node : Node G) (kind : DecoratorKind) (result : Option Status)
    (agent : Agent G) (other : NodeId) :
    (node.answerChild kind result agent).agent.statusOf other = agent.statusOf other := by
  cases result with
  | none => rfl
  | some status =>
      cases kind with
      | limit bound => exact agent.status_of_remember_of_slot_ne .execCount _ _ (by simp) other
      | _ => rfl

/-- A running child makes its decorator running, of whatever kind it is. -/
theorem reshape_running (kind : DecoratorKind) : reshape kind .running = .running := by
  cases kind <;> rfl

/-- A child that is running once the logic of a node has run makes the node running, at that
child. Where the node goes through its children one at a time, it has to stand at the child
that was running before, if any. -/
theorem logic_running (hrules : rules.Modest) {node : Node G} (hdistinct : node.Distinct)
    {agent : Agent G}
    (hbefore : node.Walks → ∀ place child, node.children[place]? = some child →
      agent.statusOf child.id = .running → place = agent.resumeIndexOf node.id) :
    let outcome := node.logic rules kept elapsed agent
    ∀ place child, node.children[place]? = some child →
      outcome.agent.statusOf child.id = .running →
        (outcome.value = .running ∧ (node.Walks → outcome.agent.position? node.id = some place)) ∨
          node.Spent outcome.agent := by
  cases node with
  | composite head kind children =>
      intro outcome place child hplace hrunning
      cases hkind : kind.advance? with
      | some advance =>
          -- A walk does not pass by a running child, whichever kind of node walks.
          have hadvance : advance ≠ .running := by
            rintro rfl
            cases kind <;> simp [CompositeKind.advance?] at hkind
          have houtcome : outcome = _ := logic_walk hkind agent
          rw [houtcome] at hrunning ⊢
          dsimp only at hrunning ⊢
          rw [status_of_settle_walk] at hrunning
          have hstop : (walk rules kept elapsed advance (agent.resumeIndexOf head.id) 0 children
              agent).value = some (0 + place, .running) :=
            walk_running hrules hadvance hdistinct.children_disjoint 0
              (hbefore (by simp [Walks, hkind])) place child hplace hrunning
          rw [hstop, Nat.zero_add]
          exact .inl ⟨rfl, fun _ => Agent.position?_remember _ head.id place⟩
      | none =>
          have houtcome : outcome = _ := logic_all hkind agent
          rw [houtcome] at hrunning ⊢
          have hall := execute_all_running hrules hdistinct.children_disjoint agent child
            (List.mem_of_getElem? hplace) hrunning
          exact .inl ⟨if_pos hall, fun hwalks => absurd hkind hwalks⟩
  | decorator head kind child =>
      intro outcome place node hplace hrunning
      cases hspent : (spent head.id kind agent).value with
      | true =>
          have houtcome : outcome = _ := logic_spent hspent
          rw [houtcome]
          exact .inr hspent
      | false =>
          have houtcome : outcome = _ := logic_unspent hspent
          rw [houtcome] at hrunning ⊢
          dsimp only at hrunning ⊢
          rw [status_of_answer_child] at hrunning
          have hresult := execute_child_running agent node
            (Option.mem_toList.1 (List.mem_of_getElem? hplace)) hrunning
          refine .inl ⟨?_, fun hwalks => hwalks.elim⟩
          rw [hresult]
          exact reshape_running kind
  | timed | action =>
      intro outcome place child hplace
      simp [children] at hplace

/-! ## Open gates -/

/-- A gate touches nothing that the engine keeps. -/
theorem open_entries (hrules : rules.Modest) (node : Node G) (agent : Agent G) (id : NodeId) :
    (Drift.entries id).rel agent (node.open rules agent).agent :=
  node.open_keeps hrules (Drift.entries_gates id node.id) agent

/-- A running node is not entered again. -/
theorem freshen_of_running {node : Node G} {agent : Agent G}
    (hrunning : agent.statusOf node.id = .running) :
    node.freshen rules agent = ⟨(), agent, []⟩ := by
  simp [freshen, hrunning]

/-- A node that is not running is entered. -/
theorem freshen_of_fresh {node : Node G} {agent : Agent G}
    (hfresh : agent.statusOf node.id ≠ .running) :
    node.freshen rules agent = node.entry rules agent := by
  simp [freshen, hfresh]

/-- A running node without a gate comes to its children with nothing done on the way. -/
theorem approach_of_running {node : Node G} (hgate : node.gate = none) {agent : Agent G}
    (hrunning : agent.statusOf node.id = .running) :
    node.approach rules agent = ⟨true, agent, []⟩ := by
  simp [approach, freshen_of_running hrunning, Node.open, hgate]

/-- A fresh entry takes a node that goes through its children one at a time to the first. -/
theorem freshen_of_walks {node : Node G} (hwalks : node.Walks) {agent : Agent G}
    (hfresh : agent.statusOf node.id ≠ .running) :
    node.freshen rules agent = ⟨(), agent.remember .resumeIndex node.id.raw (0 : Nat), []⟩ := by
  rw [freshen_of_fresh hfresh]
  cases node with
  | composite head kind children =>
      cases kind with
      | sequence | priority => rfl
      | parallel => exact absurd rfl hwalks
  | decorator | timed | action => exact hwalks.elim

/-- A node that does not go through its children one at a time is not set to the first of them. -/
theorem freshen_of_not_walks {node : Node G} (hinner : node.family ≠ .action)
    (hwalks : ¬ node.Walks) (agent : Agent G) : node.freshen rules agent = ⟨(), agent, []⟩ := by
  have hentry : node.entry rules = pure () := by
    cases node with
    | composite head kind children =>
        cases kind with
        | sequence | priority => exact absurd (by simp [Walks, CompositeKind.advance?]) hwalks
        | parallel => rfl
    | decorator => rfl
    | timed | action => exact absurd rfl hinner
  simp [freshen, hentry]

/-- What goes before the logic of a node above others changes no status. -/
theorem status_of_approach (hrules : rules.Modest) {node : Node G} (hinner : node.family ≠ .action)
    (agent : Agent G) (id : NodeId) :
    (node.approach rules agent).agent.statusOf id = agent.statusOf id := by
  have hfreshen : (node.freshen rules agent).agent.statusOf id = agent.statusOf id := by
    by_cases hrunning : agent.statusOf node.id = .running
    · rw [freshen_of_running hrunning]
    · by_cases hwalks : node.Walks
      · rw [freshen_of_walks hwalks hrunning]
        exact agent.status_of_remember_of_slot_ne .resumeIndex _ _ (by simp) id
      · rw [freshen_of_not_walks hinner hwalks]
  rw [← hfreshen]
  exact Agent.Spares.status_of_eq (open_entries hrules node _ id)
    (by simp [Region.elsewhere, Slot.IsGame])

/-- A node that is running keeps its position until its children get their turn. -/
theorem resume_index_of_approach_of_running (hrules : rules.Modest) {node : Node G}
    {agent : Agent G} (hrunning : agent.statusOf node.id = .running) (id : NodeId) :
    (node.approach rules agent).agent.resumeIndexOf id = agent.resumeIndexOf id := by
  have happroach : (node.approach rules agent).agent = (node.open rules agent).agent := by
    simp [approach, freshen_of_running hrunning]
  rw [happroach]
  exact Agent.Spares.resume_index_of_eq (open_entries hrules node agent id)
    (by simp [Region.elsewhere, Slot.IsGame])

/-- A fresh entry of a node that goes through its children one at a time finds its position
at the first. -/
theorem resume_index_of_approach_of_fresh (hrules : rules.Modest) {node : Node G}
    (hwalks : node.Walks) {agent : Agent G} (hfresh : agent.statusOf node.id ≠ .running) :
    (node.approach rules agent).agent.resumeIndexOf node.id = 0 := by
  have happroach : (node.approach rules agent).agent =
      (node.open rules (agent.remember .resumeIndex node.id.raw (0 : Nat))).agent := by
    simp [approach, freshen_of_walks hwalks hfresh]
  rw [happroach, Agent.Spares.resume_index_of_eq (open_entries hrules node _ node.id)
    (by simp [Region.elsewhere, Slot.IsGame])]
  rw [Agent.resume_index_of_eq, Agent.position?_remember]
  rfl

/-- An execution whose gate is open keeps track of the children. -/
theorem execute_tracks (hrules : rules.Modest) {node : Node G} (hinner : node.family ≠ .action)
    (hdistinct : node.Distinct) {agent : Agent G} (hopen : (node.approach rules agent).value = true)
    (h : node.Tracks agent) : node.Tracks (node.execute rules kept elapsed agent).agent := by
  have hbefore : node.Walks → ∀ place child, node.children[place]? = some child →
      (node.approach rules agent).agent.statusOf child.id = .running →
        place = (node.approach rules agent).agent.resumeIndexOf node.id := by
    intro hwalks place child hplace hrunning
    rw [status_of_approach hrules hinner] at hrunning
    rcases h place child hplace hrunning with ⟨hself, hposition⟩ | hspent
    · rw [resume_index_of_approach_of_running hrules hself, Agent.resume_index_of_eq,
        hposition hwalks]
      rfl
    · cases node with
      | composite | timed | action => exact hspent.elim
      | decorator => exact hwalks.elim
  intro place child hplace hrunning
  have hne : child.id ≠ node.id := fun heq =>
    hdistinct.id_not_mem (List.mem_of_getElem? hplace) (heq ▸ child.id_mem_ids)
  rw [execute_inner_open hinner hopen] at hrunning ⊢
  dsimp only at hrunning ⊢
  rw [Agent.status_of_settle_of_ne _ _ hne] at hrunning
  rw [StandsAt, Agent.status_of_settle_self, Agent.position?_settle]
  exact (logic_running hrules hdistinct hbefore place child hplace hrunning).imp_right
    fun hspent => hspent.mono (Nat.le_of_eq (Agent.exec_count_of_settle _ _ _ _).symm)

end Node

/-! ## Whole subtrees -/

/-- A visit that does not find the gate of a steady node closed. -/
def Visit.Unblocked (rules : Rules G) (steady : Node G → Prop) (visit : Visit G) : Prop :=
  steady visit.node → visit.Admitted rules

/-- A visit that finds all steady nodes below keeping track of their children. -/
def Visit.Tracked (steady : Node G → Prop) (visit : Visit G) : Prop :=
  visit.node.Tracked steady visit.agent

/-- Threaded turns of the children of a node keep track of what is below them. -/
theorem Threads.tracked (hrules : rules.Modest) {parent : Node G} (hdistinct : parent.Distinct)
    {turns : List (Visit G)} {before after : Agent G} {notes : List Note}
    (h : Threads rules kept elapsed turns before notes after)
    (hturns : ∀ turn ∈ turns, turn.node ∈ parent.children ∧ (turn.Tracked steady →
      ((∀ visit ∈ turn.node.visits rules kept elapsed turn.agent, visit.Unblocked rules steady) →
        turn.node.Tracked steady (turn.node.execute rules kept elapsed turn.agent).agent) ∧
      HoldsWhile (Visit.Unblocked rules steady) (Visit.Tracked steady)
        (turn.node.visits rules kept elapsed turn.agent)))
    (hbefore : ∀ child ∈ parent.children, child.Tracked steady before) :
    let visits := turns.flatMap fun turn => turn.node.visits rules kept elapsed turn.agent
    ((∀ visit ∈ visits, visit.Unblocked rules steady) →
      ∀ child ∈ parent.children, child.Tracked steady after) ∧
    HoldsWhile (Visit.Unblocked rules steady) (Visit.Tracked steady) visits := by
  induction turns generalizing before notes with
  | nil =>
      obtain ⟨-, rfl⟩ := h
      exact ⟨fun _ => hbefore, trivial⟩
  | cons turn rest ih =>
      obtain ⟨rfl, late, -, hrest⟩ := h
      obtain ⟨hmem, hturn⟩ := hturns turn List.mem_cons_self
      obtain ⟨hafter, hvisits⟩ := hturn (hbefore turn.node hmem)
      have hlater := fun hall => ih hrest
        (fun other hother => hturns other (List.mem_cons_of_mem turn hother))
        (fun child hchild => by
          by_cases heq : child = turn.node
          · rw [heq]
            exact hafter hall
          · -- The turn is another child's, so it touches nothing below this one.
            refine (hbefore child hchild).congr fun id hid => ?_
            exact Drift.execute_entries hrules kept elapsed
              (fun hid' => heq (hdistinct.child_unique hchild hmem hid hid')) turn.agent)
      rw [List.flatMap_cons]
      refine ⟨fun hall => ?_, hvisits.append fun hall => (hlater hall).2⟩
      rw [List.forall_mem_append] at hall
      exact (hlater hall.1).1 hall.2

namespace Node

/-- An execution keeps track of running children throughout its subtree, and at every visit
on the way, up to a visit that finds the gate of a steady node closed. -/
theorem execute_tracked (hrules : rules.Modest) (kept : NodeId → Bool) (elapsed : Nat)
    {node : Node G} (hdistinct : node.Distinct) {agent : Agent G}
    (h : node.Tracked steady agent) :
    let visits := node.visits rules kept elapsed agent
    ((∀ visit ∈ visits, visit.Unblocked rules steady) →
      node.Tracked steady (node.execute rules kept elapsed agent).agent) ∧
    HoldsWhile (Visit.Unblocked rules steady) (Visit.Tracked steady) visits := by
  induction node using by_family generalizing agent with
  | inner node hinner ih =>
      have hself : node.id ∈ [node.id] := List.mem_singleton_self node.id
      obtain ⟨notes, reached, late, last, status, heq, hearly, hturns, hlate⟩ :=
        execute_threads kept elapsed hinner (Passage.reach_serves hself).toTends
          (node.open_keeps hrules (Passage.reach_serves hself).toGates) agent
      -- What the node does itself touches no entry below it.
      have hapart : ∀ {before after : Agent G} {notes : List Note},
          (Passage.reach [node.id]).allows before notes after → ∀ child ∈ node.children,
            child.Tracked steady before → child.Tracked steady after := by
        intro before after notes hreach child hchild htracked
        refine htracked.congr fun id hid => hreach.spares.mono (Region.under_elsewhere ?_)
        rw [List.mem_singleton]
        rintro rfl
        exact hdistinct.id_not_mem hchild hid
      obtain ⟨hchildren, hvisits⟩ := hturns.tracked hrules hdistinct
        (fun turn hturn => ⟨turns_mem hturn,
          fun htracked => ih _ (turns_mem hturn) (hdistinct.child (turns_mem hturn)) htracked⟩)
        (fun child hchild =>
          hapart hearly child hchild (h.of_mem (child_mem_preorder hchild)))
      rw [visits_eq]
      refine ⟨fun hall other hother hsteady => ?_, h, fun _ => hvisits⟩
      obtain ⟨hopen, hbelow⟩ := List.forall_mem_cons.1 hall
      rcases mem_preorder.1 hother with rfl | ⟨child, hchild, hother⟩
      · exact execute_tracks hrules hinner hdistinct (hopen hsteady) (h _ hother hsteady)
      · have hsettled := hapart ((Passage.reach_serves hself).conclude last status) child hchild
          (hapart hlate child hchild (hchildren hbelow child hchild))
        rw [heq]
        exact hsettled other hother hsteady
  | leaf node hleaf =>
      rw [visits_leaf hleaf]
      refine ⟨fun _ other hother _ place child hplace => ?_, h, fun _ => trivial⟩
      rcases mem_preorder.1 hother with rfl | ⟨below, hbelow, -⟩
      · simp [children_leaf hleaf] at hplace
      · simp [children_leaf hleaf] at hbelow

/-- What holds of a running node below, and goes up from each child that a node stands at to
the node, holds of the top, if no limit on the way is used up. -/
theorem Tracked.ascend {motive : Node G → Prop} {node low : Node G} {agent : Agent G}
    (h : node.Tracked steady agent) (hlow : low ∈ node.preorder)
    (hsteady : ∀ other ∈ node.preorder, low ∈ other.descendants → steady other)
    (hunspent : ∀ other ∈ node.preorder, low ∈ other.descendants → ¬ other.Spent agent)
    (hrunning : agent.statusOf low.id = .running) (base : motive low)
    (step : ∀ parent ∈ node.preorder, low ∈ parent.descendants → ∀ index child,
      parent.children[index]? = some child → parent.StandsAt index agent → motive child →
        motive parent) :
    agent.statusOf node.id = .running ∧ motive node := by
  induction node using by_family with
  | inner node hinner ih =>
      rcases mem_preorder.1 hlow with rfl | ⟨child, hchild, hmem⟩
      · exact ⟨hrunning, base⟩
      have hself := node.self_mem_preorder
      have hbelow : low ∈ node.descendants := mem_descendants.2 ⟨child, hchild, hmem⟩
      have hinside : ∀ other ∈ child.preorder, other ∈ node.preorder := fun other hother =>
        preorder_trans (child_mem_preorder hchild) hother
      obtain ⟨hstatus, hmotive⟩ := ih child hchild (h.of_mem (child_mem_preorder hchild)) hmem
        (fun other hother => hsteady other (hinside other hother))
        (fun other hother => hunspent other (hinside other hother))
        fun parent hparent => step parent (hinside parent hparent)
      obtain ⟨index, hindex⟩ := List.mem_iff_getElem?.1 hchild
      -- The child is running by induction, so the node stands at it unless a limit is used up.
      have hstands := (h node hself (hsteady node hself hbelow) index child hindex
        hstatus).resolve_right (hunspent node hself hbelow)
      exact ⟨hstands.1, step node hself hbelow index child hindex hstands hmotive⟩
  | leaf node hleaf =>
      rcases mem_preorder.1 hlow with rfl | ⟨child, hchild, -⟩
      · exact ⟨hrunning, base⟩
      · simp [children_leaf hleaf] at hchild

/-- Below a node that keeps track of its children nothing is running unless the node is, or a
limit on the way is used up. -/
theorem Tracked.running_above {node low : Node G} {agent : Agent G}
    (h : node.Tracked steady agent) (hlow : low ∈ node.descendants)
    (hsteady : ∀ other ∈ node.preorder, low ∈ other.descendants → steady other)
    (hrunning : agent.statusOf low.id = .running) :
    agent.statusOf node.id = .running ∨
      ∃ other ∈ node.preorder, low ∈ other.descendants ∧ other.Spent agent := by
  by_cases hspent : ∃ other ∈ node.preorder, low ∈ other.descendants ∧ other.Spent agent
  · exact .inr hspent
  · have htop := h.ascend (mem_preorder_of_descendants hlow) hsteady
      (fun other hother hbelow hused => hspent ⟨other, hother, hbelow, hused⟩) hrunning trivial
      fun _ _ _ _ _ _ _ _ => trivial
    exact .inl htop.1

end Node

end BehaviorTree
