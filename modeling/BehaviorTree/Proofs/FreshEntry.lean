import BehaviorTree.Proofs.Chronicle

/-!
# Fresh entries

What a fresh entry does to the nodes below it. Every node sets itself up when its own last
status is not running, so what counts for a node below is what was stored for it when the
entry began (`Node.visit_afresh`, `Node.visit_resumes`): nothing changes that until the node
gets its turn.

As long as no gate from the entered node down to the node below has closed, nothing below an
idle node is running except under a limit that is used up, and there nothing is visited any
more. A gate that closed may have left a running node behind, and then a fresh entry above it
resumes it (`gate_leaves_progress`).
-/

namespace BehaviorTree

variable {G : Game} {rules : Rules G} {kept : NodeId → Bool} {elapsed : Nat}
  {forest : List (Tree G)}

/-! ## Beginning and resuming -/

/-- A visit at which a sequence or priority begins with its first child and a timed leaf arms
its full duration, once the gate lets it through. -/
structure Visit.Afresh (rules : Rules G) (visit : Visit G) : Prop where
  first : visit.node.Walks → visit.Admitted rules → ∀ kept elapsed,
    (visit.node.turns rules kept elapsed visit.agent).head?.map Visit.node =
      visit.node.children.head?
  armed : ∀ head duration mustComplete, visit.node = .timed head duration mustComplete →
    visit.Admitted rules → ∀ kept elapsed,
      (visit.node.execute rules kept elapsed visit.agent).agent.timerOf head.id =
        ⟨if duration = 0 then .expired else .running, duration⟩

/-- A visit at which a sequence or priority begins with the child that it stood at in an
earlier agent, and a timed leaf goes on with its countdown. -/
structure Visit.Resumes (rules : Rules G) (earlier : Agent G) (visit : Visit G) : Prop where
  position : visit.node.Walks → visit.Admitted rules → ∀ kept elapsed,
    (visit.node.turns rules kept elapsed visit.agent).head?.map Visit.node =
      visit.node.children[earlier.resumeIndexOf visit.node.id]?
  countdown : ∀ head duration mustComplete, visit.node = .timed head duration mustComplete →
    visit.Admitted rules → ∀ kept elapsed,
      (visit.node.execute rules kept elapsed visit.agent).agent.timerOf head.id =
        Node.tickTimer duration elapsed (earlier.timerOf head.id)

namespace Node

/-- A walk that leaves out some children begins with the one behind them. -/
theorem walk_turns_head? (advance : Status) (skip : Nat) (children : List (Node G))
    (agent : Agent G) :
    (walkTurns rules kept elapsed advance skip children agent).head?.map Visit.node =
      children[skip]? := by
  induction children generalizing skip with
  | nil => cases skip <;> rfl
  | cons child rest ih =>
      cases skip with
      | zero => rfl
      | succ skip => exact ih skip

/-- The first turn is that of the child that the node stands at. -/
theorem turns_head? {node : Node G} (hwalks : node.Walks) {agent : Agent G}
    (hopen : (node.approach rules agent).value = true) :
    (node.turns rules kept elapsed agent).head?.map Visit.node =
      node.children[(node.approach rules agent).agent.resumeIndexOf node.id]? := by
  cases node with
  | composite head kind children =>
      obtain ⟨advance, hadvance⟩ := Option.ne_none_iff_exists'.1 hwalks
      rw [turns, if_pos hopen, logicTurns, hadvance]
      exact walk_turns_head? advance _ children _
  | decorator | timed | action => exact hwalks.elim

/-- A timed leaf whose gate is open ticks its countdown. -/
theorem timer_of_execute {head : Head G} {duration : Nat} {mustComplete : Bool} {agent : Agent G}
    (hwaiting : agent.waiting? head.id = none)
    (hopen : ((timed head duration mustComplete).approach rules agent).value = true) :
    ((timed head duration mustComplete).execute rules kept elapsed agent).agent.timerOf head.id =
      tickTimer duration elapsed
        (((timed head duration mustComplete).approach rules agent).agent.timerOf head.id) := by
  have hnone : agent.waiting? (timed head duration mustComplete).id = none := hwaiting
  rw [execute_leaf rfl, hnone]
  dsimp only
  rw [visit_open hopen]
  simp [Agent.timer_of_follow, logic, runTimed]

/-- The gate of a node leaves the countdowns alone. -/
theorem timer_of_open (hrules : rules.Modest) (node : Node G) (agent : Agent G) (id : NodeId) :
    (node.open rules agent).agent.timerOf id = agent.timerOf id :=
  Agent.Spares.timer_of_eq (open_entries hrules node agent id)
    (by simp [Region.elsewhere, Slot.IsGame])

/-- A node that is running keeps its countdown on the way to its logic. -/
theorem timer_of_approach_of_running {node : Node G} {agent : Agent G} {id : NodeId}
    (hgate : ∀ agent, (node.open rules agent).agent.timerOf id = agent.timerOf id)
    (hrunning : agent.statusOf node.id = .running) :
    (node.approach rules agent).agent.timerOf id = agent.timerOf id := by
  have happroach : (node.approach rules agent).agent = (node.open rules agent).agent := by
    simp [approach, freshen_of_running hrunning]
  rw [happroach, hgate]

/-- A timed leaf that is entered afresh is not armed yet when its logic runs. -/
theorem timer_of_approach_of_fresh {head : Head G} {duration : Nat} {mustComplete : Bool}
    {agent : Agent G}
    (hgate : ∀ agent, ((timed head duration mustComplete).open rules agent).agent.timerOf head.id =
      agent.timerOf head.id)
    (hfresh : agent.statusOf head.id ≠ .running) :
    ((timed head duration mustComplete).approach rules agent).agent.timerOf head.id = .unarmed := by
  have happroach : ((timed head duration mustComplete).approach rules agent).agent =
      ((timed head duration mustComplete).open rules
        (agent.remember .timer head.id.raw Timer.unarmed)).agent := by
    have hfreshen : (timed head duration mustComplete).freshen rules agent =
        (timed head duration mustComplete).entry rules agent := freshen_of_fresh hfresh
    simp [approach, hfreshen, entry]
  rw [happroach, hgate]
  exact agent.timer_of_remember head.id Timer.unarmed

/-- The first tick of a countdown arms it in full. -/
theorem tick_timer_unarmed (duration elapsed : Nat) :
    tickTimer duration elapsed .unarmed =
      ⟨if duration = 0 then .expired else .running, duration⟩ := by
  by_cases h : duration = 0 <;> simp [tickTimer, Timer.unarmed, h]

/-- A node whose own last status is not running begins afresh. -/
theorem visit_afresh (hrules : rules.Modest) {visit : Visit G} (hnone : visit.agent.NoneWaiting)
    (hfresh : visit.agent.statusOf visit.node.id ≠ .running) : visit.Afresh rules where
  first hwalks hopen kept elapsed := by
    rw [turns_head? hwalks hopen, resume_index_of_approach_of_fresh hrules hwalks hfresh,
      List.head?_eq_getElem?]
  armed head duration mustComplete hnode hopen kept elapsed := by
    obtain ⟨node, agent⟩ := visit
    obtain rfl : node = timed head duration mustComplete := hnode
    have hidle : agent.statusOf head.id ≠ .running := hfresh
    have hgate := fun agent => timer_of_open hrules (timed head duration mustComplete) agent head.id
    rw [timer_of_execute (hnone head.id) hopen, timer_of_approach_of_fresh hgate hidle,
      tick_timer_unarmed]

/-- A node that is running goes on where it stands. -/
theorem visit_resumes (hrules : rules.Modest) {visit : Visit G}
    (hnone : visit.agent.NoneWaiting)
    (hrunning : visit.agent.statusOf visit.node.id = .running) :
    visit.Resumes rules visit.agent where
  position hwalks hopen kept elapsed := by
    rw [turns_head? hwalks hopen, resume_index_of_approach_of_running hrules hrunning]
  countdown head duration mustComplete hnode hopen kept elapsed := by
    obtain ⟨node, agent⟩ := visit
    obtain rfl : node = timed head duration mustComplete := hnode
    have hgate := fun agent => timer_of_open hrules (timed head duration mustComplete) agent head.id
    rw [timer_of_execute (hnone head.id) hopen, timer_of_approach_of_running hgate hrunning]

end Node

/-- A node that goes on from one agent goes on from another that keeps the same for it. -/
theorem Visit.Resumes.of_entries {visit : Visit G} {earlier : Agent G}
    (h : visit.Resumes rules visit.agent)
    (hkept : (Drift.entries visit.node.id).rel earlier visit.agent) :
    visit.Resumes rules earlier where
  position hwalks hopen kept elapsed := by
    have hposition : visit.agent.resumeIndexOf visit.node.id =
        earlier.resumeIndexOf visit.node.id :=
      Agent.Spares.resume_index_of_eq hkept (by simp [Region.elsewhere, Slot.IsGame])
    rw [← hposition]
    exact h.position hwalks hopen kept elapsed
  countdown head duration mustComplete hnode hopen kept elapsed := by
    have hid : visit.node.id = head.id := by
      rw [hnode]
      rfl
    have htimer : visit.agent.timerOf head.id = earlier.timerOf head.id := by
      rw [← hid]
      exact Agent.Spares.timer_of_eq hkept (by simp [Region.elsewhere, Slot.IsGame])
    rw [← htimer]
    exact h.countdown head duration mustComplete hnode hopen kept elapsed

namespace Node

/-! ## Visits on the way -/

/-- Nothing is kept under an identity at the visits of an execution elsewhere. -/
theorem visits_entries (hrules : rules.Modest) {node : Node G} {id : NodeId} (hid : id ∉ node.ids)
    (agent : Agent G) :
    ∀ visit ∈ node.visits rules kept elapsed agent, (Drift.entries id).rel agent visit.agent := by
  intro visit hvisit
  have hfits : ∀ other ∈ node.preorder, (Drift.entries (G := G) id).Fits (fun _ => False)
      (fun _ => False) rules kept elapsed other := by
    intro other hother
    have hid' : id ∉ other.ids := fun hmem => hid (ids_subset hother hmem)
    exact {
      inner := fun _ _ => Drift.entries_serves fun heq => hid' (heq ▸ other.id_mem_ids)
      leaf := fun _ _ agent => Drift.execute_entries hrules kept elapsed hid' agent
      entrances := fun _ _ _ => False.elim
      within := fun hin => hin.elim }
  exact (visits_trail hrules hfits False.elim agent).rel_of_mem hvisit

/-- At no visit of an execution a result waits, if none did at its beginning. -/
theorem visits_none_waiting (hrules : rules.Modest) {node : Node G} {agent : Agent G}
    (hnone : agent.NoneWaiting) :
    ∀ visit ∈ node.visits rules kept elapsed agent, visit.agent.NoneWaiting := by
  intro visit hvisit
  have hfits : ∀ other ∈ node.preorder, (Drift.unwaited (G := G)).Fits (fun _ => False)
      (fun _ => False) rules kept elapsed other := fun other _ => {
    inner := fun _ _ => Drift.unwaited_serves other.id
    leaf := fun _ _ agent => Drift.execute_unwaited hrules kept elapsed other agent
    entrances := fun _ _ _ => False.elim
    within := fun hin => hin.elim }
  exact fun id => (visits_trail hrules hfits False.elim agent).rel_of_mem hvisit id (hnone id)

/-- The one turn of a decorator comes right after the gate, unless its limit is used up. -/
theorem logic_turns_unspent {node : Node G} {agent : Agent G} {turn : Visit G}
    (hturn : turn ∈ node.logicTurns rules kept elapsed agent) : ¬ node.Spent turn.agent := by
  cases node with
  | composite | timed | action => exact fun hspent => hspent.elim
  | decorator head kind child =>
      rw [logicTurns] at hturn
      split at hturn
      · cases hturn
      · rename_i hunspent
        cases child with
        | none => cases hturn
        | some child =>
            obtain rfl : turn = ⟨child, agent⟩ := by simpa [allTurns] using hturn
            exact hunspent

/-- Nothing is visited below a limit that is used up. -/
theorem visits_unspent (hrules : rules.Modest) {node : Node G} (hdistinct : node.Distinct)
    {agent : Agent G} :
    ∀ visit ∈ node.visits rules kept elapsed agent, ∀ other ∈ node.preorder,
      visit.node ∈ other.descendants → ¬ other.Spent visit.agent := by
  induction node using by_family generalizing agent with
  | inner node hinner ih =>
      intro visit hmem other hother hbelow
      rw [visits_eq] at hmem
      rcases List.mem_cons.1 hmem with rfl | hlater
      · exact absurd (descendants_trans hother hbelow) (not_mem_descendants _)
      obtain ⟨turn, hturn, hvisit⟩ := List.mem_flatMap.1 hlater
      have hchild := turns_mem hturn
      rcases mem_preorder.1 hother with rfl | ⟨child, hmem, hother⟩
      · -- The count of the node itself is out of reach of its child.
        have hcount : visit.agent.execCountOf other.id = turn.agent.execCountOf other.id :=
          Agent.Spares.exec_count_of_eq (visits_entries hrules (hdistinct.id_not_mem hchild)
            turn.agent visit hvisit) (by simp [Region.elsewhere, Slot.IsGame])
        rw [turns] at hturn
        split at hturn
        · exact fun hspent => logic_turns_unspent hturn (hspent.mono (Nat.le_of_eq hcount))
        · cases hturn
      · have hsame : child = turn.node := hdistinct.child_unique hmem hchild
          (ids_subset hother (ids_subset (mem_preorder_of_descendants hbelow)
            visit.node.id_mem_ids)) (ids_subset (visits_mem hvisit) visit.node.id_mem_ids)
        exact ih turn.node hchild (hdistinct.child hchild) visit hvisit other
          (hsame ▸ hother) hbelow
  | leaf node hleaf =>
      intro visit hvisit other hother hbelow
      rcases mem_preorder.1 hother with rfl | ⟨child, hchild, -⟩
      · simp [descendants, children_leaf hleaf] at hbelow
      · simp [children_leaf hleaf] at hchild

end Node

/-! ## Runs -/

/-- Until the top of a subtree is visited, what is kept for it stays the same. -/
theorem Drift.entries_fits (hrules : rules.Modest) (hdistinct : Distinct forest)
    {top node : Node G} (htop : top ∈ forestNodes forest) (hnode : node ∈ forestNodes forest) :
    (Drift.entries top.id).Fits (· ∈ top.ids) (· = top.id) rules kept elapsed node where
  inner hout _ := Drift.entries_serves fun heq => hout (heq ▸ top.id_mem_ids)
  leaf hout hleaf agent := by
    refine Drift.execute_entries hrules kept elapsed (fun hmem => hout ?_) agent
    rw [Node.ids_leaf hleaf, List.mem_singleton] at hmem
    exact hmem ▸ top.id_mem_ids
  entrances hout child hchild hin := by
    have hbelow := Node.child_mem_preorder hchild
    have hinside : child ∈ top.preorder :=
      hdistinct.unambiguous.mem_preorder (forest_nodes_trans hnode hbelow) htop hin
    obtain ⟨tree, htree, hnodeIn⟩ := List.mem_flatMap.1 hnode
    have htopIn := hdistinct.mem_tree htree htop hin
      (Node.ids_subset (Node.preorder_trans hnodeIn hbelow) child.id_mem_ids)
    have hentrance := (hdistinct.tree htree).entrance hnodeIn htopIn
      (fun hmem => hout (Node.mem_ids.2 ⟨node, hmem, rfl⟩)) hchild hinside
    exact congrArg Node.id hentrance
  within hin child hchild := by
    have hinside := hdistinct.unambiguous.mem_preorder hnode htop hin
    exact Node.mem_ids.2
      ⟨child, Node.preorder_trans hinside (Node.child_mem_preorder hchild), rfl⟩

/-- The count of a composite or decorator never falls. -/
theorem Drift.counts_fits (hrules : rules.Modest) (hforest : Unambiguous forest)
    {counted node : Node G} (hcounted : counted ∈ forestNodes forest)
    (hinner : counted.family ≠ .action) (hnode : node ∈ forestNodes forest) :
    (Drift.counts counted.id).Fits (fun _ => False) (fun _ => False) rules kept elapsed node where
  inner _ _ := Drift.counts_serves counted.id node.id
  leaf _ hleaf agent := by
    have hne : counted.id ≠ node.id := by
      intro heq
      exact hinner (hforest counted hcounted node hnode heq ▸ hleaf)
    have hout : counted.id ∉ node.ids := Node.not_mem_ids_leaf hleaf hne
    exact Drift.counts_of_spares (Drift.execute_entries hrules kept elapsed hout agent)
      (by simp [Region.elsewhere, Slot.IsGame])
  entrances _ _ _ := False.elim
  within hin := hin.elim

namespace Chronicle

variable {before after : Agent G} {visits early between late : List (Visit G)}
  {entry later : Visit G}

/-- Between a visit outside a subtree and the next visit to its top, what is kept for the top
stays the same. -/
theorem entries_until (hrules : rules.Modest) (hdistinct : Distinct forest)
    (h : Chronicle rules forest before (early ++ entry :: (between ++ later :: late)) after)
    (hlater : later.node ∈ forestNodes forest) (hout : entry.node.id ∉ later.node.ids)
    (hbetween : ∀ visit ∈ between, visit.node.id ≠ later.node.id) :
    (Drift.entries later.node.id).rel entry.agent later.agent := by
  have htrail : Trail (· ∈ later.node.ids) (· = later.node.id) (Drift.entries later.node.id)
      before (early ++ entry :: (between ++ later :: late)) after := by
    refine h.trail (fun hcontext slot key _ => by rw [hcontext]) ?_
    intro tree htree kept elapsed start
    have hroot := mem_forest_nodes htree tree.toNode.self_mem_preorder
    refine Node.visits_trail hrules (fun other hother =>
      Drift.entries_fits hrules hdistinct hlater (forest_nodes_trans hroot hother)) ?_ start
    intro hin
    have hinside := hdistinct.unambiguous.mem_preorder hroot hlater hin
    have htop := hdistinct.mem_tree htree hlater hin tree.toNode.id_mem_ids
    exact congrArg Node.id (Node.eq_of_mem_preorder htop hinside).symm
  exact htrail.drift_between hout hbetween

/-- A limit that is used up stays so. -/
theorem spent_until (hrules : rules.Modest) (hforest : Unambiguous forest)
    (h : Chronicle rules forest before (early ++ entry :: (between ++ later :: late)) after)
    {limit : Node G} (hlimit : limit ∈ forestNodes forest) (hspent : limit.Spent entry.agent) :
    limit.Spent later.agent := by
  have hinner : limit.family ≠ .action := by
    cases limit with
    | composite | decorator => simp [Node.family]
    | timed | action => exact hspent.elim
  have htrail : Trail (fun _ => False) (fun _ => False) (Drift.counts limit.id)
      before (early ++ entry :: (between ++ later :: late)) after := by
    refine h.trail (fun {one other} hcontext => ?_) ?_
    · have hspares : one.Spares (fun _ _ => False) other := fun slot key _ => by rw [hcontext]
      exact Drift.counts_of_spares hspares id
    intro tree htree kept elapsed start
    have hroot := mem_forest_nodes htree tree.toNode.self_mem_preorder
    exact Node.visits_trail hrules (fun other hother =>
      Drift.counts_fits hrules hforest hlimit hinner (forest_nodes_trans hroot hother))
      False.elim start
  exact hspent.mono (htrail.drift_between id fun _ _ => id)

end Chronicle

/-! ## The entry and what is below -/

/-- At a visit to a node of a forest no result waits, and no limit above is used up. -/
theorem Chronicle.visit_sound (hrules : rules.Modest) (hdistinct : Distinct forest)
    {before after : Agent G} {visits : List (Visit G)}
    (h : Chronicle rules forest before visits after) :
    ∀ visit ∈ visits, visit.node ∈ forestNodes forest ∧ visit.agent.NoneWaiting ∧
      ∀ other ∈ forestNodes forest, visit.node ∈ other.descendants → ¬ other.Spent visit.agent := by
  refine h.forall_visits fun tree htree kept elapsed start hnone visit hvisit => ?_
  have hmem := Node.visits_mem hvisit
  refine ⟨mem_forest_nodes htree hmem, Node.visits_none_waiting hrules hnone visit hvisit, ?_⟩
  intro other hother hbelow
  have hin := hdistinct.mem_tree htree hother
    (Node.ids_subset (Node.mem_preorder_of_descendants hbelow) visit.node.id_mem_ids)
    (Node.ids_subset hmem visit.node.id_mem_ids)
  exact Node.visits_unspent hrules (hdistinct.tree htree) visit hvisit other hin hbelow

/-- Where no gate from an idle node down to a node below has closed before, the node below is
idle too, unless a limit in between is used up. -/
theorem Chronicle.idle_below (hrules : rules.Modest) (hdistinct : Distinct forest)
    {entity : EntityId} {after : Agent G} {before late : List (Visit G)} {entry : Visit G}
    (h : Chronicle rules forest (Agent.fresh entity) (before ++ entry :: late) after)
    (hfresh : entry.agent.statusOf entry.node.id ≠ .running) {low : Node G}
    (hbelow : low ∈ entry.node.descendants)
    (hadmitted : ∀ visit ∈ before, visit.node ∈ entry.node.preorder →
      low ∈ visit.node.descendants → visit.Admitted rules)
    (hunspent : ∀ limit ∈ entry.node.preorder, low ∈ limit.descendants →
      ¬ limit.Spent entry.agent) :
    entry.agent.statusOf low.id ≠ .running := by
  intro hrunning
  let steady : Node G → Prop := fun other =>
    other ∈ entry.node.preorder ∧ low ∈ other.descendants
  have htracked : entry.node.Tracked steady entry.agent :=
    (h.tracked hrules hdistinct steady fun tree _ =>
      Agent.fresh_tracked steady tree.toNode entity).2.holds_of_split
        fun visit hvisit hsteady => hadmitted visit hvisit hsteady.1 hsteady.2
  rcases htracked.running_above hbelow (fun other hother hlow => ⟨hother, hlow⟩) hrunning with
    habove | ⟨limit, hlimit, hover, hspent⟩
  · exact hfresh habove
  · exact hunspent limit hlimit hover hspent

/-- What a fresh entry means for a node below, at the node's next visit. If the node itself
was not running when the entry began, it begins afresh; so it does if no gate from the entered
node down to it has closed before. If it was running, left so by a gate that closed, it goes on
where it stood. -/
theorem fresh_entry_below (hrules : rules.Modest) (hdistinct : Distinct forest)
    (hplain : Plain forest) {commands : List (Command G)}
    (hcommands : ∀ command ∈ commands, command.Within forest) {entity : EntityId}
    {before between late : List (Visit G)} {entry first : Visit G}
    (hvisits : Command.playVisits rules commands (Agent.fresh entity) =
      before ++ entry :: (between ++ first :: late))
    (hfresh : entry.agent.statusOf entry.node.id ≠ .running)
    (hbelow : first.node ∈ entry.node.descendants)
    (hfirst : ∀ visit ∈ between, visit.node.id ≠ first.node.id) :
    (entry.agent.statusOf first.node.id ≠ .running → first.Afresh rules) ∧
    ((∀ visit ∈ before, visit.node ∈ entry.node.preorder →
      first.node ∈ visit.node.descendants → visit.Admitted rules) → first.Afresh rules) ∧
    (entry.agent.statusOf first.node.id = .running → first.Resumes rules entry.agent) := by
  have hchronicle := Command.play_all_chronicle hrules hdistinct.unambiguous hplain hcommands
    (Agent.fresh_composed entity)
  rw [hvisits] at hchronicle
  have hsound := hchronicle.visit_sound hrules hdistinct
  obtain ⟨hentry, -, -⟩ := hsound entry (by simp)
  obtain ⟨hlow, hnone, hunspent⟩ := hsound first (by simp)
  have hkept := hchronicle.entries_until hrules hdistinct hlow
    ((hdistinct.of_mem_forest_nodes hentry).id_not_mem_below hbelow) hfirst
  have hstatus : first.agent.statusOf first.node.id = entry.agent.statusOf first.node.id :=
    Agent.Spares.status_of_eq hkept (by simp [Region.elsewhere, Slot.IsGame])
  have hafresh : entry.agent.statusOf first.node.id ≠ .running → first.Afresh rules := by
    intro hidle
    exact Node.visit_afresh hrules hnone (hstatus ▸ hidle)
  refine ⟨hafresh, ?_, ?_⟩
  · intro hadmitted
    refine hafresh (hchronicle.idle_below hrules hdistinct hfresh hbelow hadmitted ?_)
    -- A limit used up at the entry is so at the visit too, and then there is no visit.
    intro limit hlimit hover hspent
    have hmem := forest_nodes_trans hentry hlimit
    exact hunspent limit hmem hover
      (hchronicle.spent_until hrules hdistinct.unambiguous hmem hspent)
  · intro hrunning
    exact (Node.visit_resumes hrules hnone (hstatus.trans hrunning)).of_entries hkept

/-! ### A gate that closes -/

/-- A sequence behind a gate, which holds while anything is selected; below it a sequence of
two leaves, the second of which takes five nanoseconds. -/
def gatedTree : Tree (Game.clocked Unit) where
  head := ⟨⟨4⟩, none⟩
  name := "gated"
  child := some (.composite ⟨⟨3⟩, some (.selection none)⟩ .sequence
    [.composite ⟨⟨2⟩, none⟩ .sequence
      [.action ⟨⟨0⟩, none⟩ "Done" false (), .timed ⟨⟨1⟩, none⟩ 5 false]])

/-- Leaves that are done at once. -/
def doneAtOnce : Rules (Game.clocked Unit) := Rules.clocked fun _ _ => .finished

/-- No identity stands twice in the example tree. -/
theorem gated_tree_distinct : Distinct [gatedTree] := by
  unfold Distinct
  decide

/-- The example tree has no must-complete leaf. -/
theorem gated_tree_plain : Plain [gatedTree] := by
  intro node hnode
  simp only [forestNodes, gatedTree, Tree.toNode, Node.preorder, Node.preorderChild,
    Node.preorderAll, List.flatMap_cons, List.flatMap_nil, List.append_nil, List.mem_cons,
    List.not_mem_nil, or_false, List.cons_append, List.nil_append] at hnode
  rcases hnode with rfl | rfl | rfl | rfl | rfl <;> rfl

/-- Two updates with the gate open, one with the gate closed, and one with it open again. -/
def gatedCommands : List (Command (Game.clocked Unit)) :=
  [.setBehavior (fun _ => false) gatedTree, .setSelection [9], .update (fun _ => false) 2,
    .update (fun _ => false) 2, .setSelection [], .update (fun _ => false) 2, .setSelection [9],
    .update (fun _ => false) 2]

/-- The commands of the example bring in no other tree. -/
theorem gated_commands_within : ∀ command ∈ gatedCommands, command.Within [gatedTree] := by
  simp [gatedCommands, Command.Within]

/-- What that run comes to. -/
def gatedVisits : List (Visit (Game.clocked Unit)) :=
  Command.playVisits doneAtOnce gatedCommands (Agent.fresh 7)

/-- The run of the example comes to fifteen visits. -/
theorem gated_visits_length : gatedVisits.length = 15 := by rfl

/-- The visit of that run at a place. -/
def gatedVisit (place : Fin 15) : Visit (Game.clocked Unit) :=
  gatedVisits.get (place.cast gated_visits_length.symm)

/-- Two entries of that run. At the first of all the sequence below begins afresh. At the one after
the gate was closed the sequence below, which was left running, goes on where it stood. -/
theorem fresh_entry_below_gated :
    let entry := gatedVisit 1
    let first := gatedVisit 2
    let again := gatedVisit 12
    let next := gatedVisit 13
    (gatedVisits = [gatedVisit 0] ++ entry :: ([] ++ first :: gatedVisits.drop 3) ∧
      entry.agent.statusOf entry.node.id ≠ .running ∧ first.node ∈ entry.node.descendants ∧
      first.Afresh doneAtOnce) ∧
    gatedVisits = gatedVisits.take 12 ++ again :: ([] ++ next :: gatedVisits.drop 14) ∧
      again.agent.statusOf again.node.id ≠ .running ∧ next.node ∈ again.node.descendants ∧
      again.agent.statusOf next.node.id = .running ∧ next.Resumes doneAtOnce again.agent := by
  intro entry first again next
  have hvisits : gatedVisits =
      [gatedVisit 0] ++ entry :: ([] ++ first :: gatedVisits.drop 3) := by rfl
  have hfresh : entry.agent.statusOf entry.node.id ≠ .running := by decide
  have hbelow : first.node ∈ entry.node.descendants := .head _
  have hidle : entry.agent.statusOf first.node.id ≠ .running := by decide
  have hfirst := fresh_entry_below (Rules.clocked_modest _) gated_tree_distinct gated_tree_plain
    gated_commands_within hvisits hfresh hbelow (by simp)
  have hlater : gatedVisits =
      gatedVisits.take 12 ++ again :: ([] ++ next :: gatedVisits.drop 14) := by rfl
  have hagain : again.agent.statusOf again.node.id ≠ .running := by decide
  have hunder : next.node ∈ again.node.descendants := .head _
  have hleft : again.agent.statusOf next.node.id = .running := by decide
  have hnext := fresh_entry_below (Rules.clocked_modest _) gated_tree_distinct gated_tree_plain
    gated_commands_within hlater hagain hunder (by simp)
  exact ⟨⟨hvisits, hfresh, hbelow, hfirst.1 hidle⟩, hlater, hagain, hunder, hleft,
    hnext.2.2 hleft⟩

/-- The entry after the gate was closed: the sequence below was left running and begins with
its second child. -/
theorem gate_leaves_progress :
    let entry := gatedVisit 12
    let first := gatedVisit 13
    Distinct [gatedTree] ∧ Plain [gatedTree] ∧
      (∀ command ∈ gatedCommands, command.Within [gatedTree]) ∧
      gatedVisits = gatedVisits.take 12 ++ entry :: ([] ++ first :: gatedVisits.drop 14) ∧
      entry.node.Walks ∧ entry.agent.statusOf entry.node.id ≠ .running ∧
      entry.Admitted doneAtOnce ∧ first.node ∈ entry.node.descendants ∧ first.node.Walks ∧
      ¬ first.Afresh doneAtOnce := by
  intro entry first
  have habove : entry.node.Walks := fun hadvance => nomatch hadvance
  have hwalks : first.node.Walks := fun hadvance => nomatch hadvance
  refine ⟨gated_tree_distinct, gated_tree_plain, gated_commands_within, by rfl, habove, by decide,
    by rfl, .head _, hwalks, fun hafresh => ?_⟩
  have hturn := congrArg (Option.map Node.id) (hafresh.first hwalks rfl (fun _ => false) 2)
  revert hturn
  decide

end BehaviorTree
