import BehaviorTree.Proofs.Linking

/-!
# Limits

A limit keeps count of the executions of its child. `limit_keeps_count` says what each run of its
logic does, over a whole run of an agent: as long as the count is below the bound the child is
executed once, and from then on the limit finishes without it.

One execution is `Execution.limit_run`. The count survives whatever lies between two executions,
because it is kept under the limit's identity (`Drift.Owned.play_executions_linked`).
-/

namespace BehaviorTree

variable {G : Game} {rules : Rules G} {forest : List (Tree G)} {head : Head G} {bound : Nat}
  {child : Option (Node G)}

/-! ## One execution -/

/-- How often a limit has executed its child after some runs of its logic. -/
def tally (child : Option (Node G)) (bound runs : Nat) : Nat :=
  if child.isSome then min runs bound else 0

/-- A limit without a child has executed none. -/
theorem tally_none (bound runs : Nat) : tally (none : Option (Node G)) bound runs = 0 := rfl

/-- A limit with a child has executed it in all runs up to the bound. -/
theorem tally_some (node : Node G) (bound runs : Nat) :
    tally (some node) bound runs = min runs bound := rfl

/-- What a limit does when its logic runs for the time `number`: it executes its child once, and
runs if the child does; or it has no child, and fails; or it is spent, and finishes without doing
anything but settle its result. -/
structure LimitRun (rules : Rules G) (bound : Nat) (child : Option (Node G)) (number : Nat)
    (run : Execution G) : Prop where
  within : ∀ node, child = some node → number ≤ bound →
    run.turns rules = [⟨node, run.near rules⟩] ∧
      run.result rules =
        if (node.execute rules run.kept run.elapsed (run.near rules)).value = .running then .running
        else .failed
  childless : child = none → bound ≠ 0 → run.turns rules = [] ∧ run.result rules = .failed
  spent : (child.isSome ∧ bound < number) ∨ bound = 0 →
    run.node.visits rules run.kept run.elapsed run.agent = [run.toVisit] ∧
      run.result rules = .finished ∧
      (run.outcome rules).agent = (run.near rules).settle run.node.id .finished
  count : (run.outcome rules).agent.execCountOf run.node.id = tally child bound number

/-- The number of times that a limit has executed its child stays the same. -/
abbrev Drift.counted (id : NodeId) : Drift G := .stored (fun slot => slot = .execCount) id

/-- A count that stays the same is the count of the node. -/
theorem Drift.counted_exec_count_of {id : NodeId} {before after : Agent G}
    (h : (Drift.counted id).rel before after) : after.execCountOf id = before.execCountOf id :=
  congrArg (Option.getD · (0 : Nat)) (h .execCount rfl)

/-- A limit is spent once it has executed its child as often as its bound says. -/
theorem spent_limit (id : NodeId) (bound : Nat) (agent : Agent G) :
    (Node.spent id (.limit bound) agent).value = decide (bound ≤ agent.execCountOf id) := rfl

namespace Execution

variable {run : Execution G}

/-- The gate of a limit leaves the count alone. -/
theorem exec_count_of_near (hrules : rules.Respect (fun slot => slot = .execCount) head.id forest)
    (hlimit : .decorator head (.limit bound) child ∈ forestNodes forest)
    (hnode : run.node = .decorator head (.limit bound) child) :
    (run.near rules).execCountOf head.id = run.agent.execCountOf head.id := by
  have hreads := Drift.stored_reads (G := G) (fun slot => slot = .execCount) head.id
  have hgate : (run.node.open rules).Keeps (Drift.counted head.id).passage := by
    rw [hnode]
    exact hreads.questions.gate (hrules.keep hreads hlimit)
  have hentry : (run.node.entry rules).Keeps (Drift.counted head.id).passage := by
    rw [hnode]
    exact Play.keeps_pure ()
  exact Drift.counted_exec_count_of (Node.approach_keeps hgate hentry run.agent)

/-- A limit that is blocked keeps its count. -/
theorem exec_count_of_blocked
    (hrules : rules.Respect (fun slot => slot = .execCount) head.id forest)
    (hlimit : .decorator head (.limit bound) child ∈ forestNodes forest)
    (hnode : run.node = .decorator head (.limit bound) child)
    (hclosed : run.runs rules = false) :
    (run.outcome rules).agent.execCountOf head.id = run.agent.execCountOf head.id := by
  have hinner : run.node.family ≠ .action := by simp [hnode, Node.family]
  rw [runs_inner hinner] at hclosed
  rw [outcome, Node.execute_inner_closed hinner hclosed]
  exact ((run.near rules).exec_count_of_settle run.node.id head.id _).trans
    (exec_count_of_near hrules hlimit hnode)

/-- An execution of a composite or decorator that runs its logic. -/
theorem outcome_inner (hinner : run.node.family ≠ .action) (hopen : run.runs rules = true) :
    run.turns rules = run.node.logicTurns rules run.kept run.elapsed (run.near rules) ∧
      let ran := run.node.logic rules run.kept run.elapsed (run.near rules)
      run.outcome rules = ⟨ran.value, ran.agent.settle run.node.id ran.value,
        (run.node.approach rules run.agent).notes ++ ran.notes ++
          [.executed run.node.id ran.value]⟩ := by
  have happroach : (run.node.approach rules run.agent).value = true :=
    (runs_inner hinner).symm.trans hopen
  exact ⟨by simp only [turns, Node.turns, happroach, if_true, near],
    Node.execute_inner_open hinner happroach⟩

/-- A limit that is spent executes nothing and finishes. -/
theorem limit_spent (hnode : run.node = .decorator head (.limit bound) child)
    (hopen : run.runs rules = true) (hspent : bound ≤ (run.near rules).execCountOf head.id) :
    run.turns rules = [] ∧ run.result rules = .finished ∧
      (run.outcome rules).agent = (run.near rules).settle head.id .finished := by
  have hvalue : (Node.spent head.id (.limit bound) (run.near rules)).value = true := by
    rw [spent_limit, decide_eq_true hspent]
  obtain ⟨hturns, houtcome⟩ := outcome_inner (by simp [hnode, Node.family]) hopen
  rw [hnode, Node.logic_spent hvalue] at houtcome
  rw [hturns, result, houtcome, hnode]
  exact ⟨if_pos hvalue, rfl, rfl⟩

/-- A limit that is not spent executes its child, if it has one, and counts it. -/
theorem limit_unspent (hnode : run.node = .decorator head (.limit bound) child)
    (hopen : run.runs rules = true) (hunspent : (run.near rules).execCountOf head.id < bound) :
    let first := Node.executeChild rules run.kept run.elapsed child (run.near rules)
    let answer := run.node.answerChild (.limit bound) first.value first.agent
    run.turns rules = Node.allTurns rules run.kept run.elapsed child.toList (run.near rules) ∧
      run.result rules = answer.value ∧
      (run.outcome rules).agent = answer.agent.settle head.id answer.value := by
  have hvalue : (Node.spent head.id (.limit bound) (run.near rules)).value = false := by
    rw [spent_limit, decide_eq_false (Nat.not_le.2 hunspent)]
  obtain ⟨hturns, houtcome⟩ := outcome_inner (by simp [hnode, Node.family]) hopen
  rw [hnode, Node.logic_unspent hvalue] at houtcome
  rw [hturns, result, houtcome, hnode]
  refine ⟨if_neg ?_, rfl, rfl⟩
  rw [hvalue]
  exact Bool.false_ne_true

/-- A limit that has no child and is not spent fails. -/
theorem limit_childless (hnode : run.node = .decorator head (.limit bound) none)
    (hopen : run.runs rules = true) (hunspent : (run.near rules).execCountOf head.id < bound) :
    run.turns rules = [] ∧ run.result rules = .failed ∧
      (run.outcome rules).agent = (run.near rules).settle head.id .failed :=
  limit_unspent hnode hopen hunspent

/-- A limit that is not spent executes its child and counts it. -/
theorem limit_executes {node : Node G}
    (hnode : run.node = .decorator head (.limit bound) (some node))
    (hopen : run.runs rules = true) (hunspent : (run.near rules).execCountOf head.id < bound) :
    let first := node.execute rules run.kept run.elapsed (run.near rules)
    run.turns rules = [⟨node, run.near rules⟩] ∧
      run.result rules = (if first.value = .running then .running else .failed) ∧
      (run.outcome rules).agent = (first.agent.remember .execCount head.id.raw
        (first.agent.execCountOf head.id + 1 : Nat)).settle head.id (run.result rules) := by
  obtain ⟨hturns, hresult, hagent⟩ := limit_unspent hnode hopen hunspent
  rw [hnode] at hresult hagent
  refine ⟨hturns, hresult, ?_⟩
  rw [hagent, hresult]
  rfl

/-- What the logic of a limit does, given how often it has run before. -/
theorem limit_run (hrules : rules.Respect (fun slot => slot = .execCount) head.id forest)
    (hforest : Unambiguous forest)
    (hlimit : .decorator head (.limit bound) child ∈ forestNodes forest)
    (hnode : run.node = .decorator head (.limit bound) child) (hopen : run.runs rules = true)
    {number : Nat} (hcount : run.agent.execCountOf head.id = tally child bound number) :
    LimitRun rules bound child (number + 1) run := by
  have hnear := (exec_count_of_near hrules hlimit hnode).trans hcount
  have hid : run.node.id = head.id := by rw [hnode]; rfl
  by_cases hspent : bound ≤ (run.near rules).execCountOf head.id
  · obtain ⟨hturns, hresult, hagent⟩ := limit_spent hnode hopen hspent
    have hvisits : run.node.visits rules run.kept run.elapsed run.agent =
        run.toVisit :: (run.turns rules).flatMap _ := run.node.visits_eq run.agent
    have hkept : (run.outcome rules).agent.execCountOf head.id = tally child bound number := by
      rw [hagent, Agent.exec_count_of_settle, hnear]
    rw [hturns] at hvisits
    rw [hnear] at hspent
    rw [← hid] at hagent hkept
    cases child with
    | none =>
        exact ⟨by simp, fun _ hbound => absurd (Nat.le_zero.1 hspent) hbound,
          fun _ => ⟨hvisits, hresult, hagent⟩, hkept⟩
    | some node =>
        rw [tally_some] at hspent hkept
        refine ⟨fun other hother hnumber => ?_, by simp, fun _ => ⟨hvisits, hresult, hagent⟩, ?_⟩
        · omega
        · rw [hkept, tally_some]
          omega
  · have hunspent := Nat.not_le.1 hspent
    rw [hnear] at hspent
    cases child with
    | none =>
        obtain ⟨hturns, hresult, hagent⟩ := limit_childless hnode hopen hunspent
        rw [tally_none, Nat.not_le] at hspent
        refine ⟨by simp, fun _ _ => ⟨hturns, hresult⟩, fun hexhausted => ?_, ?_⟩
        · rcases hexhausted with ⟨hsome, -⟩ | hzero
          · cases hsome
          · omega
        · rw [hagent, hid, Agent.exec_count_of_settle]
          exact hnear
    | some node =>
        obtain ⟨hturns, hresult, hagent⟩ := limit_executes hnode hopen hunspent
        rw [tally_some, Nat.not_le] at hspent
        -- The child leaves the count alone: the limit does not stand below itself.
        have hbelow : head.id ∉ node.ids := hforest.id_not_mem_below hlimit
          (Node.mem_descendants.2 ⟨node, by simp [Node.children], node.self_mem_preorder⟩)
        have hchild : node ∈ forestNodes forest := forest_nodes_trans hlimit
          (Node.child_mem_preorder (by simp [Node.children]))
        have howned := (Drift.stored_reads (fun slot => slot = .execCount) head.id).owned hrules
          (by simp) (by simp)
        have hkept := Drift.counted_exec_count_of
          (howned.suits.execute run.kept run.elapsed hchild hbelow (run.near rules))
        refine ⟨fun other hother _ => ?_, by simp, fun hexhausted => ?_, ?_⟩
        · obtain rfl := Option.some.inj hother
          exact ⟨hturns, hresult⟩
        · omega
        · rw [hagent, hid, Agent.exec_count_of_settle, Agent.exec_count_of_remember, hkept, hnear,
            tally_some, tally_some]
          omega

end Execution

/-! ## Whole runs -/

/-- What the executions of a limit do that come one after the other, given how often its logic has
run before. An execution whose gate is closed does not count. -/
theorem Linked.limit_runs (hrules : rules.Respect (fun slot => slot = .execCount) head.id forest)
    (hforest : Unambiguous forest)
    (hlimit : .decorator head (.limit bound) child ∈ forestNodes forest)
    {executions : List (Execution G)}
    (hnodes : ∀ execution ∈ executions, execution.node = .decorator head (.limit bound) child)
    {before after : Agent G} (h : Linked rules (.counted head.id) before executions after)
    {number : Nat} (hcount : before.execCountOf head.id = tally child bound number) :
    (∀ (index : Nat) (run : Execution G),
      (executions.filter (Execution.runs rules))[index]? = some run →
        LimitRun rules bound child (number + index + 1) run) ∧
      after.execCountOf head.id =
        tally child bound (number + (executions.filter (Execution.runs rules)).length) := by
  -- On the executions; the number of runs so far goes up with each whose gate is open.
  induction executions generalizing before number with
  | nil => exact ⟨by simp, (Drift.counted_exec_count_of h).trans hcount⟩
  | cons execution later ih =>
      obtain ⟨hnode, hlater⟩ := List.forall_mem_cons.1 hnodes
      obtain ⟨hbefore, hafter⟩ := h
      have hreached := (Drift.counted_exec_count_of hbefore).trans hcount
      cases hopen : execution.runs rules with
      | false =>
          rw [List.filter_cons_of_neg (by simp [hopen])]
          exact ih hlater hafter
            ((Execution.exec_count_of_blocked hrules hlimit hnode hopen).trans hreached)
      | true =>
          have hrun := Execution.limit_run hrules hforest hlimit hnode hopen hreached
          have hleft := hrun.count
          rw [hnode] at hleft
          obtain ⟨hruns, hfinal⟩ := ih hlater hafter hleft
          rw [List.filter_cons_of_pos hopen, List.length_cons]
          refine ⟨fun index run hindex => ?_, by rw [hfinal, Nat.add_right_comm, Nat.add_assoc]⟩
          cases index with
          | zero =>
              obtain rfl := Option.some.inj hindex
              exact hrun
          | succ index =>
              rw [show number + (index + 1) + 1 = number + 1 + index + 1 by omega]
              exact hruns index run hindex

/-- Over a whole run of an agent that has never run the logic of a limit, the runs of this logic
do what their numbers say: the limit executes its child in each of the first ones, as many as its
bound, and in none after them. After any number of runs it has counted those in which it executed
its child, so the count never exceeds the bound.

The law is for games that keep to the contract of the store (`Rules.Respect`): what is kept under
the identity of a node is for that node alone, so no leaf, condition or filter of the game writes
the count of the limit. -/
theorem limit_keeps_count (hrules : rules.Respect (fun slot => slot = .execCount) head.id forest)
    (hforest : Unambiguous forest)
    (hlimit : .decorator head (.limit bound) child ∈ forestNodes forest) {agent : Agent G}
    (hagent : agent.Refers forest) (hnew : agent.execCountOf head.id = 0)
    {commands : List (Command G)} (hcommands : ∀ command ∈ commands, command.Within forest) :
    let runs := (Execution.sameNode head.id
      (Command.playExecutions rules commands agent)).filter (Execution.runs rules)
    (∀ (index : Nat) (run : Execution G), runs[index]? = some run →
        run.node = .decorator head (.limit bound) child ∧
          LimitRun rules bound child (index + 1) run) ∧
      (Command.playAll rules commands agent).agent.execCountOf head.id =
        tally child bound runs.length ∧
      tally child bound runs.length ≤ bound := by
  intro runs
  have howned := (Drift.stored_reads (fun slot => slot = .execCount) head.id).owned hrules
    (by simp) (by simp)
  have hlinked := howned.play_executions_linked hrules.loyal hforest hlimit hcommands hagent
  have hnodes := Command.play_executions_same hrules.loyal hforest hlimit hcommands hagent
  have hzero : agent.execCountOf head.id = tally child bound 0 := by
    rw [hnew]
    cases child <;> simp [tally]
  obtain ⟨hruns, hcount⟩ := hlinked.limit_runs hrules hforest hlimit hnodes hzero
  refine ⟨fun index run hindex => ⟨?_, ?_⟩, ?_, ?_⟩
  · exact hnodes run (List.mem_of_mem_filter (List.mem_of_getElem? hindex))
  · rw [← Nat.zero_add index]
    exact hruns index run hindex
  · exact hcount.trans (congrArg (tally child bound) (Nat.zero_add runs.length))
  · cases child with
    | none => exact Nat.zero_le bound
    | some node => exact Nat.min_le_right runs.length bound

/-- A limit of two on a leaf that runs as long as the steps are short. -/
def quotaTree : Tree (Game.clocked Unit) where
  head := ⟨⟨2⟩, none⟩
  name := "quota"
  child := some (.decorator ⟨⟨1⟩, none⟩ (.limit 2)
    (some (.action ⟨⟨0⟩, none⟩ "Deadline" true ())))

/-- The leaf comes to its end in an update of its own, so the limit runs in two of the first three
updates. Then it is spent, and stays so when the tree is attached anew. -/
theorem limit_keeps_count_quota :
    let rules := Rules.clocked deadline
    let attach := Command.setBehavior (fun _ => false) quotaTree
    let commands := attach :: [1, 1, 2, 1].map (.update fun _ => false) ++
      [attach, .update (fun _ => false) 1]
    let runs := (Execution.sameNode ⟨1⟩ (Command.playExecutions rules commands
      (Agent.fresh 7))).filter (Execution.runs rules)
    runs.map (Execution.result rules) = [.running, .failed, .finished, .finished] ∧
      (∀ (index : Nat) (run : Execution (Game.clocked Unit)), runs[index]? = some run →
        LimitRun rules 2 (some (.action ⟨⟨0⟩, none⟩ "Deadline" true ())) (index + 1) run) ∧
      (Command.playAll rules commands (Agent.fresh 7)).agent.execCountOf ⟨1⟩ = 2 := by
  intro rules attach commands runs
  have hdistinct : quotaTree.toNode.Distinct := by
    unfold Node.Distinct
    decide
  have hlimit : Node.decorator ⟨⟨1⟩, none⟩ (.limit 2)
      (some (.action ⟨⟨0⟩, none⟩ "Deadline" true ())) ∈ forestNodes [quotaTree] :=
    List.mem_of_getElem? (i := 1) rfl
  have hresults : runs.map (Execution.result rules) =
      [.running, .failed, .finished, .finished] := by
    decide +kernel
  have hlength := congrArg List.length hresults
  rw [List.length_map] at hlength
  have hagent : (Agent.fresh 7 : Agent (Game.clocked Unit)).Refers [quotaTree] :=
    ⟨by simp [Agent.fresh], by simp [Agent.fresh]⟩
  have hcommands : ∀ command ∈ commands, command.Within [quotaTree] := by
    simp [commands, attach, Command.Within]
  obtain ⟨hruns, hcount, -⟩ := limit_keeps_count
    (Rules.clocked_respect deadline (fun slot => slot = .execCount) ⟨1⟩ [quotaTree])
    (Tree.distinct_forest hdistinct).unambiguous hlimit hagent rfl hcommands
  refine ⟨hresults, fun index run hindex => (hruns index run hindex).2, ?_⟩
  rw [hcount, hlength]
  rfl

end BehaviorTree
