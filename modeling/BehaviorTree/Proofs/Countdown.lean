import BehaviorTree.Proofs.FreshEntry
import BehaviorTree.Proofs.Linking

/-!
# Countdowns

A timed leaf is armed with its full duration when it is entered afresh, and every later execution
that runs its logic uses the elapsed time up. `timed_counts_down` says what this comes to over a
whole run: from the arming on, the leaf runs as long as the elapsed times sum up to less than the
duration, and finishes with the first execution that they do not.

What the leaf has to remember (`Agent.KeepsTime`) changes by its own executions alone, and a result
that waits for it is always the one that it ended with (`Agent.Owed`). So a leaf that counts down
never finds a result, and one that has ended is armed anew when its logic runs again.
-/

namespace BehaviorTree

variable {G : Game} {rules : Rules G} {forest : List (Tree G)} {head : Head G} {duration : Nat}
  {mustComplete : Bool}

/-! ## What a timed leaf remembers -/

/-- The kinds of entries that a timed leaf depends on. -/
def Slot.OfTimed (slot : Slot G) : Prop := slot = .status ∨ slot = .timer ∨ slot = .completed

/-- A result that waits for a node is the one that the node has ended with. -/
def Agent.Owed (id : NodeId) (agent : Agent G) : Prop :=
  ∀ status, agent.waiting? id = some status → agent.statusOf id = status ∧ status ≠ .running

/-- The status and the countdown of a node are the same, and no result came to wait for it but
its own. -/
structure Agent.KeepsTime (id : NodeId) (before after : Agent G) : Prop where
  status : after.statusOf id = before.statusOf id
  timer : after.timerOf id = before.timerOf id
  owed : before.Owed id → after.Owed id

/-- The countdown of a node stands still. -/
def Drift.timed (id : NodeId) : Drift G where
  rel := Agent.KeepsTime id
  refl _ := ⟨rfl, rfl, fun h => h⟩
  trans hfirst hsecond :=
    ⟨hsecond.status.trans hfirst.status, hsecond.timer.trans hfirst.timer,
      fun h => hsecond.owed (hfirst.owed h)⟩

/-- What an agent owes a node depends on the node's status and its waiting result alone. -/
theorem Agent.Owed.congr {id : NodeId} {before after : Agent G} (h : before.Owed id)
    (hstatus : after.statusOf id = before.statusOf id)
    (hwaiting : after.waiting? id = before.waiting? id) : after.Owed id := by
  intro status hafter
  rw [hstatus]
  exact h status (hwaiting ▸ hafter)

/-- Where no result waits, nothing is owed. -/
theorem Agent.Owed.of_none {id : NodeId} {agent : Agent G} (h : agent.waiting? id = none) :
    agent.Owed id := by simp [Owed, h]

/-- The countdown of a node is read off the entries that a timed leaf depends on. -/
theorem Drift.timed_reads (id : NodeId) : (Drift.timed (G := G) id).Reads Slot.OfTimed id where
  of_spares hspares hregion := by
    have hstatus := hspares.status_of_eq (hregion .status (.inl rfl))
    have hwaiting := hspares.waiting?_eq (hregion .completed (.inr (.inr rfl)))
    exact ⟨hstatus, hspares.timer_of_eq (hregion .timer (.inr (.inl rfl))),
      fun howed => howed.congr hstatus hwaiting⟩

/-- The countdown of a node changes by executions of the node alone. -/
theorem Drift.timed_owned {id : NodeId} (hrules : rules.Respect Slot.OfTimed id forest) :
    (Drift.timed id).Owned rules forest id where
  suits := (Drift.timed_reads id).outlasts hrules (by simp [Slot.OfTimed])
  of_context := (Drift.timed_reads id).of_context
  handed agent action hended := by
    have hspares : agent.Spares (fun slot _ => slot = .completed)
        (agent.withWaiting action (agent.statusOf action)) := agent.spares_with_waiting _ _ rfl
    refine ⟨agent.status_of_with_waiting action id _, hspares.timer_of_eq (by simp),
      fun howed => ?_⟩
    by_cases hself : id = action
    · intro status hstatus
      rw [hself, agent.waiting?_with_waiting_self] at hstatus
      obtain rfl := Option.some.inj hstatus
      exact ⟨by rw [hself, agent.status_of_with_waiting], hended⟩
    · exact howed.congr (agent.status_of_with_waiting action id _)
        (agent.waiting?_with_waiting_of_ne _ hself)
  dropped agent action := by
    have hspares : agent.Spares (fun slot _ => slot = .completed)
        (agent.forget .completed action.raw) := agent.spares_forget _ rfl
    have hstatus : (agent.forget .completed action.raw).statusOf id = agent.statusOf id :=
      hspares.status_of_eq (by simp)
    refine ⟨hstatus, hspares.timer_of_eq (by simp), fun howed => ?_⟩
    by_cases hself : id = action
    · exact .of_none (by rw [hself, agent.waiting?_forget_self])
    · exact howed.congr hstatus (agent.waiting?_forget_of_ne hself)

/-- An agent for which a timed leaf counts down and has used up some time that is not all. -/
structure Agent.Counting (id : NodeId) (duration past : Nat) (agent : Agent G) : Prop where
  status : agent.statusOf id = .running
  timer : agent.timerOf id = ⟨.running, duration - past⟩
  owed : agent.Owed id

/-- A countdown goes on wherever the node keeps its time. -/
theorem Agent.Counting.move {id : NodeId} {past : Nat} {before after : Agent G}
    (h : before.Counting id duration past) (hmove : before.KeepsTime id after) :
    after.Counting id duration past :=
  ⟨hmove.status.trans h.status, hmove.timer.trans h.timer, hmove.owed h.owed⟩

/-- No result waits for a leaf that counts down. -/
theorem Agent.Counting.waiting?_eq {id : NodeId} {past : Nat} {agent : Agent G}
    (h : agent.Counting id duration past) : agent.waiting? id = none := by
  rw [Option.eq_none_iff_forall_ne_some]
  intro status hwaiting
  obtain ⟨hstatus, hended⟩ := h.owed status hwaiting
  exact hended (hstatus.symm.trans h.status)

/-- One tick of a countdown that runs. -/
theorem Node.tick_timer_running (duration past elapsed : Nat) :
    tickTimer duration elapsed ⟨.running, duration - past⟩ =
      ⟨if past + elapsed < duration then .running else .expired, duration - (past + elapsed)⟩ := by
  by_cases h : past + elapsed < duration
  · have hleft : duration - (past + elapsed) ≠ 0 := by omega
    simp [tickTimer, h, hleft, Nat.sub_sub]
  · have hleft : duration - (past + elapsed) = 0 := by omega
    simp [tickTimer, h, hleft, Nat.sub_sub]

/-! ## One execution -/

namespace Execution

variable {run : Execution G}

/-- An execution of a leaf that a result waits for hands the result over. -/
theorem outcome_claimed (hleaf : run.node.family = .action) {status : Status}
    (hwaiting : run.agent.waiting? run.node.id = some status) :
    run.result rules = status ∧ (run.outcome rules).agent =
      (run.agent.forget .completed run.node.id.raw).settle run.node.id status := by
  rw [result, outcome, Node.execute_leaf hleaf, hwaiting]
  exact ⟨rfl, rfl⟩

/-- An execution of a leaf whose gate is closed. -/
theorem outcome_blocked (hleaf : run.node.family = .action)
    (hwaiting : run.agent.waiting? run.node.id = none) (hidle : run.runs rules = false) :
    run.result rules = .canNotExecute ∧ (run.outcome rules).agent =
      ((run.near rules).release run.node.id).settle run.node.id .canNotExecute := by
  have hclosed : (run.node.approach rules run.agent).value = false := by
    simpa [runs, hwaiting] using hidle
  rw [result, outcome, Node.execute_leaf hleaf, hwaiting]
  dsimp only
  rw [Node.visit_closed hclosed]
  simp only [hleaf, if_true, near, and_self]

/-- No result waits for a leaf that runs its logic. -/
theorem waiting?_of_runs (hleaf : run.node.family = .action) (hopen : run.runs rules = true) :
    run.agent.waiting? run.node.id = none := by
  simp only [runs, hleaf, Bool.and_eq_true] at hopen
  simpa using hopen.1

/-- An execution of a leaf that runs its logic. -/
theorem outcome_ran (hleaf : run.node.family = .action) (hopen : run.runs rules = true) :
    let ran := run.node.logic rules run.kept run.elapsed (run.near rules)
    run.result rules = ran.value ∧ (run.outcome rules).agent =
      (ran.agent.follow run.kept run.node ran.value).settle run.node.id ran.value := by
  have hwaiting := waiting?_of_runs hleaf hopen
  have happroach : (run.node.approach rules run.agent).value = true := by
    simpa [runs, hwaiting] using hopen
  rw [result, outcome, Node.execute_leaf hleaf, hwaiting]
  dsimp only
  rw [Node.visit_open happroach]
  exact ⟨rfl, rfl⟩

/-- The gate of a timed leaf leaves alone what the leaf remembers. -/
theorem open_stored (hrules : rules.Respect Slot.OfTimed head.id forest)
    (htimed : .timed head duration mustComplete ∈ forestNodes forest) (agent : Agent G) :
    (Drift.stored Slot.OfTimed head.id).rel agent
      ((Node.timed head duration mustComplete).open rules agent).agent :=
  have hreads := Drift.stored_reads Slot.OfTimed head.id
  hreads.questions.gate (hrules.keep hreads htimed) agent

/-- On the way to the logic of a timed leaf no result comes to wait for it. -/
theorem waiting?_near (hrules : rules.Respect Slot.OfTimed head.id forest)
    (htimed : .timed head duration mustComplete ∈ forestNodes forest)
    (hnode : run.node = .timed head duration mustComplete) :
    (run.near rules).waiting? head.id = run.agent.waiting? head.id := by
  let waits : Passage G := (Drift.stored (fun slot => slot = .completed) head.id).passage
  have hgate : (run.node.open rules).Keeps waits := by
    rw [hnode]
    rintro agent _ rfl
    exact open_stored hrules htimed agent .completed (.inr (.inr rfl))
  have hentry : (run.node.entry rules).Keeps waits := by
    rw [hnode]
    rintro agent _ rfl
    exact agent.get?_remember_of_ne .timer Timer.unarmed (by simp)
  exact Node.approach_keeps hgate hentry run.agent .completed rfl

/-- After an execution of a timed leaf no result waits for it. -/
theorem waiting?_outcome (hrules : rules.Respect Slot.OfTimed head.id forest)
    (htimed : .timed head duration mustComplete ∈ forestNodes forest)
    (hnode : run.node = .timed head duration mustComplete) :
    (run.outcome rules).agent.waiting? head.id = none := by
  have hleaf : run.node.family = .action := by rw [hnode]; rfl
  have hid : run.node.id = head.id := by rw [hnode]; rfl
  cases hwaiting : run.agent.waiting? run.node.id with
  | some status =>
      rw [(outcome_claimed hleaf hwaiting).2, ← hid, Agent.waiting?_settle]
      exact run.agent.waiting?_forget_self run.node.id
  | none =>
      have hnear : (run.near rules).waiting? head.id = none := by
        rw [waiting?_near hrules htimed hnode, ← hid, hwaiting]
      cases hopen : run.runs rules with
      | false =>
          rw [(outcome_blocked hleaf hwaiting hopen).2, Agent.waiting?_settle,
            Agent.waiting?_release, hnear]
      | true =>
          have hlogic : (run.node.logic rules run.kept run.elapsed (run.near rules)).agent.waiting?
              head.id = (run.near rules).waiting? head.id := by
            rw [hnode]
            exact (run.near rules).get?_remember_of_ne .timer _ (by simp)
          rw [(outcome_ran hleaf hopen).2, Agent.waiting?_settle, Agent.waiting?_follow, hlogic,
            hnear]

/-- An execution of a leaf that does not run its logic takes a result over, or else the gate is
closed. -/
theorem result_of_idle (hleaf : run.node.family = .action) (hidle : run.runs rules = false) :
    run.result rules = (run.agent.waiting? run.node.id).getD .canNotExecute := by
  cases hwaiting : run.agent.waiting? run.node.id with
  | some status => exact (outcome_claimed hleaf hwaiting).1
  | none => exact (outcome_blocked hleaf hwaiting hidle).1

/-- The countdown that an execution of a timed leaf goes on with: the one that is kept if the leaf
is running, and a new one otherwise. -/
def countdown (run : Execution G) : Timer :=
  if run.agent.statusOf run.node.id = .running then run.agent.timerOf run.node.id else .unarmed

/-- An execution of a timed leaf that runs its logic ticks the countdown. -/
theorem ticks (hrules : rules.Respect Slot.OfTimed head.id forest)
    (htimed : .timed head duration mustComplete ∈ forestNodes forest)
    (hnode : run.node = .timed head duration mustComplete) (hopen : run.runs rules = true) :
    let timer := Node.tickTimer duration run.elapsed run.countdown
    (run.outcome rules).agent.timerOf head.id = timer ∧
      run.result rules = if timer.phase = .expired then .finished else .running := by
  have hleaf : run.node.family = .action := by rw [hnode]; rfl
  have hgate : ∀ agent, ((Node.timed head duration mustComplete).open rules agent).agent.timerOf
      head.id = agent.timerOf head.id := fun agent => congrArg (Option.getD · Timer.unarmed)
    (open_stored hrules htimed agent .timer (.inr (.inl rfl)))
  have hnear : (run.near rules).timerOf head.id = run.countdown := by
    rw [countdown, near, hnode]
    split
    · exact Node.timer_of_approach_of_running hgate ‹_›
    · exact Node.timer_of_approach_of_fresh hgate ‹_›
  obtain ⟨hresult, hagent⟩ := outcome_ran hleaf hopen
  have htimer : (run.outcome rules).agent.timerOf head.id =
      (run.node.logic rules run.kept run.elapsed (run.near rules)).agent.timerOf head.id := by
    rw [hagent, Agent.timer_of_settle, Agent.timer_of_follow]
  rw [hresult, htimer, ← hnear, hnode]
  exact ⟨(run.near rules).timer_of_remember head.id _, rfl⟩

end Execution

/-! ## From one execution to the next -/

/-- An execution of a timed leaf that runs its logic although the leaf was not running: it arms
the countdown. -/
structure Execution.Arms (rules : Rules G) (run : Execution G) : Prop where
  runs : run.runs rules = true
  fresh : run.agent.statusOf run.node.id ≠ .running

/-- The status stored for a node is the result of its last execution. -/
theorem Execution.status_of_outcome (run : Execution G) (rules : Rules G) :
    (run.outcome rules).agent.statusOf run.node.id = run.result rules :=
  run.node.status_of_execute rules run.kept run.elapsed run.agent

/-- The sum of the elapsed times of executions. -/
def Execution.span : List (Execution G) → Nat
  | [] => 0
  | execution :: later => execution.elapsed + span later

variable (hrules : rules.Respect Slot.OfTimed head.id forest)
  (htimed : .timed head duration mustComplete ∈ forestNodes forest)

include hrules htimed

/-- An execution that arms the countdown runs, unless there is no time to wait. -/
theorem Execution.Arms.counting {run : Execution G} (h : run.Arms rules)
    (hnode : run.node = .timed head duration mustComplete) :
    run.result rules = (if duration = 0 then .finished else .running) ∧
      (duration ≠ 0 → (run.outcome rules).agent.Counting head.id duration 0) := by
  obtain ⟨htimer, hresult⟩ := Execution.ticks hrules htimed hnode h.runs
  rw [Execution.countdown, if_neg h.fresh, Node.tick_timer_unarmed] at htimer hresult
  by_cases hzero : duration = 0
  · rw [if_pos hzero] at hresult ⊢
    exact ⟨hresult, fun hne => absurd hzero hne⟩
  · rw [if_neg hzero] at htimer hresult ⊢
    have hstatus := run.status_of_outcome rules
    rw [hnode, hresult] at hstatus
    exact ⟨hresult, fun _ =>
      ⟨hstatus, htimer, .of_none (Execution.waiting?_outcome hrules htimed hnode)⟩⟩

/-- An execution that runs its logic while the leaf counts down uses the elapsed time up. -/
theorem Execution.counting {run : Execution G}
    (hnode : run.node = .timed head duration mustComplete) (hopen : run.runs rules = true)
    {past : Nat} (hcounting : run.agent.Counting head.id duration past) :
    run.result rules = (if past + run.elapsed < duration then .running else .finished) ∧
      (past + run.elapsed < duration →
        (run.outcome rules).agent.Counting head.id duration (past + run.elapsed)) := by
  obtain ⟨htimer, hresult⟩ := Execution.ticks hrules htimed hnode hopen
  have hrunning : run.agent.statusOf run.node.id = .running := by
    rw [hnode]
    exact hcounting.status
  have hkept : run.agent.timerOf run.node.id = ⟨.running, duration - past⟩ := by
    rw [hnode]
    exact hcounting.timer
  rw [Execution.countdown, if_pos hrunning, hkept, Node.tick_timer_running] at htimer hresult
  by_cases hleft : past + run.elapsed < duration
  · rw [if_pos hleft] at htimer hresult ⊢
    have hstatus := run.status_of_outcome rules
    rw [hnode, hresult] at hstatus
    exact ⟨hresult, fun _ =>
      ⟨hstatus, htimer, .of_none (Execution.waiting?_outcome hrules htimed hnode)⟩⟩
  · rw [if_neg hleft] at hresult ⊢
    exact ⟨hresult, fun hless => absurd hless hleft⟩

/-- Executions that run their logic while the leaf counts down use the elapsed time up together. -/
theorem Linked.counting {executions : List (Execution G)}
    (hnodes : ∀ execution ∈ executions, execution.node = .timed head duration mustComplete)
    (hopen : ∀ execution ∈ executions, execution.runs rules = true)
    {before after : Agent G} (h : Linked rules (.timed head.id) before executions after)
    {past : Nat} (hcounting : before.Counting head.id duration past)
    (hleft : past + Execution.span executions < duration) :
    after.Counting head.id duration (past + Execution.span executions) := by
  induction executions generalizing before past with
  | nil => exact hcounting.move h
  | cons execution later ih =>
      obtain ⟨hnode, hnodes⟩ := List.forall_mem_cons.1 hnodes
      obtain ⟨hruns, hopen⟩ := List.forall_mem_cons.1 hopen
      rw [Execution.span, ← Nat.add_assoc] at hleft ⊢
      have hstep := (Execution.counting hrules htimed hnode hruns (hcounting.move h.1)).2 (by omega)
      exact ih hnodes hopen h.2 hstep hleft

/-- A leaf that has ended is not running again before its logic runs. -/
theorem Linked.ended {executions : List (Execution G)}
    (hnodes : ∀ execution ∈ executions, execution.node = .timed head duration mustComplete)
    (hidle : ∀ execution ∈ executions, execution.runs rules = false)
    {before after : Agent G} (h : Linked rules (.timed head.id) before executions after)
    (howed : before.Owed head.id) (hended : before.statusOf head.id ≠ .running) :
    after.statusOf head.id ≠ .running := by
  induction executions generalizing before with
  | nil => rwa [h.status]
  | cons execution later ih =>
      obtain ⟨hnode, hnodes⟩ := List.forall_mem_cons.1 hnodes
      obtain ⟨hclosed, hidle⟩ := List.forall_mem_cons.1 hidle
      have hwaiting := Execution.waiting?_outcome hrules htimed hnode
      have hleaf : execution.node.family = .action := by rw [hnode]; rfl
      have hresult := Execution.result_of_idle hleaf hclosed
      have hstatus := execution.status_of_outcome rules
      rw [hnode] at hresult hstatus
      refine ih hnodes hidle h.2 (.of_none hwaiting) ?_
      -- A result that is handed over is the one that the leaf has ended with.
      cases hfound : execution.agent.waiting? head.id with
      | none =>
          have hblocked : execution.result rules = .canNotExecute :=
            hresult.trans (congrArg (Option.getD · Status.canNotExecute) hfound)
          rw [hblocked] at hstatus
          exact fun hrunning => Status.noConfusion (hstatus.symm.trans hrunning)
      | some status =>
          have hclaimed : execution.result rules = status :=
            hresult.trans (congrArg (Option.getD · Status.canNotExecute) hfound)
          rw [hclaimed] at hstatus
          exact fun hrunning => (h.1.owed howed status hfound).2 (hstatus.symm.trans hrunning)

omit hrules htimed

/-! ## Whole runs -/

/-- The law of a timed leaf over its executions in a run. An execution that arms the countdown
runs, unless the duration is zero. As long as the executions that run their logic from there on
have used up less than the duration, no result waits for the leaf, and the next one runs if the
time that passed up to its end is still less, and finishes otherwise; a closed gate ends the
countdown. After an execution that did not come out running, the next that runs its logic arms the
countdown anew. -/
structure CountsDown (rules : Rules G) (duration : Nat) (executions : List (Execution G)) :
    Prop where
  arming : ∀ run ∈ executions, run.Arms rules →
    run.result rules = if duration = 0 then .finished else .running
  counting : ∀ early arming later next late,
    executions = early ++ arming :: (later ++ next :: late) → arming.Arms rules →
      (∀ run ∈ later, run.runs rules = true) → Execution.span later < duration →
        next.agent.waiting? next.node.id = none ∧
          next.result rules =
            if next.runs rules then
              if Execution.span later + next.elapsed < duration then .running else .finished
            else .canNotExecute
  rearming : ∀ early ended idle next late,
    executions = early ++ ended :: (idle ++ next :: late) → ended.result rules ≠ .running →
      (∀ run ∈ idle, run.runs rules = false) → next.runs rules = true → next.Arms rules

/-- Linked executions of a timed leaf follow the law of its countdown. -/
theorem Linked.counts_down (hrules : rules.Respect Slot.OfTimed head.id forest)
    (htimed : .timed head duration mustComplete ∈ forestNodes forest)
    {executions : List (Execution G)}
    (hnodes : ∀ execution ∈ executions, execution.node = .timed head duration mustComplete)
    {before after : Agent G} (h : Linked rules (.timed head.id) before executions after) :
    CountsDown rules duration executions where
  arming run hrun harms := (harms.counting hrules htimed (hnodes run hrun)).1
  counting early arming later next late hsplit harms hopen hleft := by
    rw [hsplit] at h hnodes
    obtain ⟨middle, -, -, h⟩ := h.split
    obtain ⟨reached, hlater, hnext, -⟩ := h.split
    have hnode : next.node = .timed head duration mustComplete := hnodes next (by simp)
    have hlaterNodes : ∀ run ∈ later, run.node = .timed head duration mustComplete :=
      fun run hrun => hnodes run (by simp [hrun])
    have hstart := (harms.counting hrules htimed (hnodes arming (by simp))).2 (by omega)
    -- Between the arming and the next execution the countdown has gone down by what was counted.
    have hcounting := hlater.counting hrules htimed hlaterNodes hopen hstart
      (by rwa [Nat.zero_add])
    rw [Nat.zero_add] at hcounting
    have hreached := hcounting.move hnext
    have hnone : next.agent.waiting? next.node.id = none := by
      rw [hnode]
      exact hreached.waiting?_eq
    refine ⟨hnone, ?_⟩
    split
    · exact (Execution.counting hrules htimed hnode ‹_› hreached).1
    · have hresult := Execution.result_of_idle (by rw [hnode]; rfl) (Bool.eq_false_iff.2 ‹_›)
      rw [hresult, hnone, Option.getD_none]
  rearming early ended idle next late hsplit hended hidle hopen := by
    rw [hsplit] at h hnodes
    obtain ⟨middle, -, -, h⟩ := h.split
    obtain ⟨reached, hidling, hnext, -⟩ := h.split
    have hnode : next.node = .timed head duration mustComplete := hnodes next (by simp)
    have hidleNodes : ∀ run ∈ idle, run.node = .timed head duration mustComplete :=
      fun run hrun => hnodes run (by simp [hrun])
    have hendedNode : ended.node = .timed head duration mustComplete := hnodes ended (by simp)
    have hstatus := ended.status_of_outcome rules
    rw [hendedNode] at hstatus
    have hreached := hidling.ended hrules htimed hidleNodes hidle
      (.of_none (Execution.waiting?_outcome hrules htimed hendedNode))
      (fun hrunning => hended (hstatus.symm.trans hrunning))
    refine ⟨hopen, ?_⟩
    rw [hnode]
    exact fun hrunning => hreached (hnext.status.symm.trans hrunning)

/-- Over a whole run, whatever else is executed and done in between, the executions of a timed leaf
follow the law of its countdown.

The law is for games that keep to the contract of the store (`Rules.Respect`): what is kept under
the identity of a node is for that node alone, so no leaf, condition or filter of the game writes
the countdown, the status or the waiting result of the timed leaf. -/
theorem timed_counts_down (hrules : rules.Respect Slot.OfTimed head.id forest)
    (hforest : Unambiguous forest)
    (htimed : .timed head duration mustComplete ∈ forestNodes forest) {agent : Agent G}
    (hagent : agent.Refers forest) {commands : List (Command G)}
    (hcommands : ∀ command ∈ commands, command.Within forest) :
    let executions := Execution.sameNode head.id (Command.playExecutions rules commands agent)
    (∀ run ∈ executions, run.node = .timed head duration mustComplete) ∧
      CountsDown rules duration executions := by
  intro executions
  have hlinked := (Drift.timed_owned hrules).play_executions_linked hrules.loyal hforest htimed
    hcommands hagent
  have hnodes := Command.play_executions_same hrules.loyal hforest htimed hcommands hagent
  exact ⟨hnodes, hlinked.counts_down hrules htimed hnodes⟩

/-- A must-complete leaf that waits for a time of three. -/
def kettleTree : Tree (Game.clocked Unit) where
  head := ⟨⟨1⟩, none⟩
  name := "kettle"
  child := some (.timed ⟨⟨0⟩, none⟩ 3 true)

/-- The first update arms the leaf, the next three use its time up, the last of them more than is
left. Its result is handed over in the same update, and the last update arms it again. -/
theorem timed_counts_down_kettle :
    let rules := Rules.clocked deadline
    let executions := Execution.sameNode ⟨0⟩ (Command.playExecutions rules
      (.setBehavior (fun _ => false) kettleTree :: [5, 1, 1, 2, 9].map (.update fun _ => false))
      (Agent.fresh 7))
    executions.map (Execution.result rules) =
        [.running, .running, .running, .finished, .finished, .running] ∧
      executions.map (Execution.runs rules) = [true, true, true, true, false, true] ∧
      CountsDown rules 3 executions := by
  intro rules executions
  have hdistinct : kettleTree.toNode.Distinct := by
    unfold Node.Distinct
    decide
  have htimed : Node.timed ⟨⟨0⟩, none⟩ 3 true ∈ forestNodes [kettleTree] :=
    List.mem_of_getElem? (i := 1) rfl
  have hagent : (Agent.fresh 7 : Agent (Game.clocked Unit)).Refers [kettleTree] :=
    ⟨by simp [Agent.fresh], by simp [Agent.fresh]⟩
  refine ⟨by decide +kernel, by decide +kernel, ?_⟩
  exact (timed_counts_down (Rules.clocked_respect deadline Slot.OfTimed ⟨0⟩ [kettleTree])
    (Tree.distinct_forest hdistinct).unambiguous htimed hagent (by simp [Command.Within])).2

end BehaviorTree
