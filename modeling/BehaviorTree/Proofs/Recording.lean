import BehaviorTree.Proofs.Course
import BehaviorTree.Proofs.Works

/-!
# Recordings

A traced agent keeps two accounts of what it executes: the table of last statuses in its context
and the recording. Both are written when the result of a node is settled and at no other time.

What goes on between two settlements is `Agent.Unrecorded`. A passage that is open to it and to
settlements is one of every execution (`Passage.Hears.execute`), and so the notes of an
execution, an update or a run tell what the recording gains: `Agent.Recorded` says it of each.
The two accounts then agree after every run (`trace_mirrors_statuses`).
-/

namespace BehaviorTree

variable {G : Game} {α : Type}

namespace TraceLog

/-- The log with more events at its end. -/
def extend (log : TraceLog) (events : List TraceEvent) : TraceLog := ⟨log.events ++ events⟩

/-- An extended log has the old events, and then the new ones. -/
@[simp] theorem events_extend (log : TraceLog) (events : List TraceEvent) :
    (log.extend events).events = log.events ++ events := rfl

/-- A log that is extended by nothing stays as it is. -/
@[simp] theorem extend_nil (log : TraceLog) : log.extend [] = log := by
  simp [extend]

/-- A log may be extended step by step. -/
theorem extend_append (log : TraceLog) (early late : List TraceEvent) :
    log.extend (early ++ late) = (log.extend early).extend late := by
  simp [extend]

/-- Later events decide, and where they are silent the log does. -/
theorem last_status?_extend (log : TraceLog) (events : List TraceEvent) (node : NodeId) :
    (log.extend events).lastStatus? node =
      (lastStatus? ⟨events⟩ node).or (log.lastStatus? node) := by
  simp [lastStatus?, List.find?_append, Option.map_or]

end TraceLog

/-- The executions that notes tell of, as events of a tick. -/
def stamped (tick : Nat) (notes : List Note) : List TraceEvent :=
  (executions notes).map fun execution => ⟨tick, execution.1, execution.2⟩

/-- What notes tell as events is told by their parts, one after the other. -/
theorem stamped_append (tick : Nat) (early late : List Note) :
    stamped tick (early ++ late) = stamped tick early ++ stamped tick late := by
  simp [stamped, executions_append]

/-- The events of a tick have its number. -/
theorem tick_of_mem_stamped {tick : Nat} {notes : List Note} {event : TraceEvent}
    (h : event ∈ stamped tick notes) : event.tick = tick := by
  obtain ⟨execution, -, rfl⟩ := List.mem_map.1 h
  rfl

/-! ## What goes unrecorded -/

/-- Nothing has been executed: the recording, the tick counter and the last statuses are as they
were, and no note tells of an execution. -/
structure Agent.Unrecorded (before : Agent G) (notes : List Note) (after : Agent G) : Prop where
  ticks : after.ticks = before.ticks
  trace : after.trace = before.trace
  statuses : ∀ id, after.status? id = before.status? id
  silent : executions notes = []

/-- Doings that go unrecorded. -/
def Passage.unrecorded : Passage G where
  allows := Agent.Unrecorded
  stay _ := ⟨rfl, rfl, fun _ => rfl, rfl⟩
  join hfirst hsecond :=
    { ticks := hsecond.ticks.trans hfirst.ticks
      trace := hsecond.trace.trans hfirst.trace
      statuses := fun id => (hsecond.statuses id).trans (hfirst.statuses id)
      silent := by rw [executions_append, hfirst.silent, hsecond.silent, List.append_nil] }

/-- Leaves, conditions and filters write no last statuses, and leave the recording and the tick
counter alone. -/
structure Rules.Unrecorded (rules : Rules G) : Prop where
  enter : ∀ leaf id, (rules.enter leaf id).Keeps .unrecorded
  act : ∀ leaf id elapsed, (rules.act leaf id elapsed).Keeps .unrecorded
  test : ∀ test node, (rules.test test node).Keeps .unrecorded
  sift : ∀ sieve, (rules.sift sieve).Keeps .unrecorded

/-- A game whose leaves answer by the clock alone records nothing. -/
theorem Rules.clocked_unrecorded {Leaf : Type} (answer : Leaf → Nat → Status) :
    (Rules.clocked answer).Unrecorded where
  enter _ _ := Play.keeps_pure ()
  act leaf _ elapsed := Play.keeps_pure (answer leaf elapsed)
  test := nofun
  sift := nofun

namespace Agent

/-- To release an action leaves the recording alone. -/
theorem trace_release (agent : Agent G) (id : NodeId) : (agent.release id).trace = agent.trace := by
  unfold release
  split
  · split <;> rfl
  · rfl

/-- To follow up a leaf leaves the recording alone. -/
theorem trace_follow (kept : NodeId → Bool) (agent : Agent G) (action : Node G)
    (status : Status) : (agent.follow kept action status).trace = agent.trace := by
  cases status with
  | running =>
      show (agent.hold kept action).trace = agent.trace
      unfold hold
      split
      · split <;> rfl
      · rfl
  | finished | failed => exact agent.trace_release action.id
  | unknown | canNotExecute => rfl

namespace Unrecorded

variable {before after : Agent G} {region : Region G}

/-- Entries of other kinds than last statuses are written without being recorded. -/
theorem of_spares (hspares : before.Spares region after) (hregion : ∀ key, ¬ region .status key)
    (hticks : after.ticks = before.ticks) (htrace : after.trace = before.trace) :
    before.Unrecorded [] after :=
  ⟨hticks, htrace, fun id => hspares .status id.raw (hregion id.raw), rfl⟩

/-- To remember something other than a status goes unrecorded. -/
theorem remember (agent : Agent G) (slot : Slot G) (key : Nat) (value : slot.Value)
    (hslot : slot ≠ .status) : agent.Unrecorded [] (agent.remember slot key value) :=
  of_spares (agent.spares_remember (fun other _ => other = slot) slot value rfl)
    (fun _ heq => hslot heq.symm) rfl rfl

/-- To forget something other than a status goes unrecorded. -/
theorem forget (agent : Agent G) (slot : Slot G) (key : Nat) (hslot : slot ≠ .status) :
    agent.Unrecorded [] (agent.forget slot key) :=
  of_spares (agent.spares_forget (fun other _ => other = slot) rfl)
    (fun _ heq => hslot heq.symm) rfl rfl

/-- A change of the selection goes unrecorded. -/
theorem select (agent : Agent G) (change : List EntityId → List EntityId) :
    agent.Unrecorded [] (agent.select change) := ⟨rfl, rfl, fun _ => rfl, rfl⟩

/-- The status that an agent takes on goes unrecorded. -/
theorem with_status (agent : Agent G) (status : Status) :
    agent.Unrecorded [] (agent.withStatus status) := ⟨rfl, rfl, fun _ => rfl, rfl⟩

/-- To release an action goes unrecorded. -/
theorem release (agent : Agent G) (id : NodeId) : agent.Unrecorded [] (agent.release id) :=
  of_spares (agent.spares_release (fun slot _ => slot = .currentAction) id rfl) (by simp)
    (agent.stands_release id).ticks (agent.trace_release id)

/-- To follow up a leaf goes unrecorded. -/
theorem follow (kept : NodeId → Bool) (agent : Agent G) (action : Node G) (status : Status) :
    agent.Unrecorded [] (agent.follow kept action status) :=
  of_spares (agent.spares_follow kept (fun slot _ => slot = .currentAction) action status rfl)
    (by simp) (agent.stands_follow kept action status).ticks
    (agent.trace_follow kept action status)

end Unrecorded

end Agent

variable {rules : Rules G} {kept : NodeId → Bool} {elapsed : Nat} {passage : Passage G}
  {node : Node G}

/-! ## Passages that hear of settlements -/

/-- A passage that is open to what goes unrecorded and to the settling of results. -/
structure Passage.Hears (passage : Passage G) : Prop where
  quiet : ∀ {before after : Agent G} {notes : List Note}, before.Unrecorded notes after →
    passage.allows before notes after
  settle : ∀ (agent : Agent G) id status,
    passage.allows agent [.executed id status] (agent.settle id status)

/-- A game that records nothing keeps to a passage that hears of settlements. -/
theorem Rules.Unrecorded.keep (h : rules.Unrecorded) (hpassage : passage.Hears) (node : Node G) :
    rules.Keep passage node where
  enter leaf agent := hpassage.quiet (h.enter leaf node.id agent)
  act leaf elapsed agent := hpassage.quiet (h.act leaf node.id elapsed agent)
  test test agent := hpassage.quiet (h.test test node agent)
  sift _ sieve _ agent := hpassage.quiet (h.sift sieve agent)

namespace Passage.Hears

/-- What the engine does at a node keeps to a passage that hears of settlements. -/
theorem works (h : passage.Hears) (kept : NodeId → Bool) (node : Node G) :
    passage.Works kept node where
  remember agent slot value _ hslot := h.quiet (.remember agent slot _ value hslot)
  forget agent slot hslot _ := h.quiet (.forget agent slot _ hslot)
  note _ _ hwhat := h.quiet ⟨rfl, rfl, fun _ => rfl, by simp [executions, hwhat]⟩
  select agent change := h.quiet (.select agent change)
  follow agent status := h.quiet (.follow kept agent node status)
  release agent := h.quiet (.release agent node.id)

/-- Executions take a passage that hears of settlements, if the game does. -/
theorem execute (h : passage.Hears) (hrules : ∀ other ∈ node.preorder, rules.Keep passage other) :
    (node.execute rules kept elapsed).Keeps passage :=
  passage.manner.execute fun other hother =>
    (h.works kept other).suits (hrules other hother) fun agent => h.settle agent other.id

end Passage.Hears

/-! ## What a recording gains -/

/-- The recording has gained the executions that notes tell of. -/
structure Agent.Traced (before : Agent G) (notes : List Note) (after : Agent G) : Prop where
  ticks : after.ticks = before.ticks
  trace : after.trace = before.trace.map fun log => log.extend (stamped before.ticks notes)

/-- Doings that are recorded by their notes. -/
def Passage.traced : Passage G where
  allows := Agent.Traced
  stay agent := ⟨rfl, by simp [stamped, executions]⟩
  join hfirst hsecond := by
    refine ⟨hsecond.ticks.trans hfirst.ticks, ?_⟩
    rw [hsecond.trace, hfirst.trace, hfirst.ticks, Option.map_map]
    simp only [Function.comp_def, stamped_append, TraceLog.extend_append]

/-- The passage of the recording hears of settlements. -/
theorem Passage.traced_hears : (Passage.traced (G := G)).Hears where
  quiet h := ⟨h.ticks, by simp [stamped, h.silent, h.trace]⟩
  settle agent id status := ⟨rfl, rfl⟩

/-- The recording and the last statuses have both gained the executions that notes tell of. -/
structure Agent.Recorded (before : Agent G) (notes : List Note) (after : Agent G) : Prop
    extends before.Traced notes after where
  statuses : ∀ id, after.status? id =
    (TraceLog.lastStatus? ⟨stamped before.ticks notes⟩ id).or (before.status? id)

/-- Doings that are recorded by their notes, in the recording and in the last statuses. -/
def Passage.recorded : Passage G where
  allows := Agent.Recorded
  stay agent := ⟨Passage.traced.stay agent, fun _ => rfl⟩
  join {first second third early late} hfirst hsecond := by
    refine ⟨Passage.traced.join hfirst.toTraced hsecond.toTraced, fun id => ?_⟩
    have hlast := TraceLog.last_status?_extend ⟨stamped first.ticks early⟩
      (stamped first.ticks late) id
    rw [hsecond.statuses, hfirst.statuses, hfirst.ticks, stamped_append, ← Option.or_assoc]
    exact congrArg (Option.or · (first.status? id)) hlast.symm

/-- To settle a result makes it the last status of the node, and of no other node. -/
theorem Agent.status?_settle (agent : Agent G) (id other : NodeId) (status : Status) :
    (agent.settle id status).status? other =
      if id = other then some status else agent.status? other := by
  split
  · rename_i heq
    rw [← heq, Agent.status?_settle_self]
  · rename_i hne
    refine agent.spares_settle (fun slot key => slot = .status ∧ key = id.raw) status ⟨rfl, rfl⟩
      .status other.raw ?_
    simpa [NodeId.raw_inj] using Ne.symm hne

/-- The passage of the recording and of the last statuses hears of settlements. -/
theorem Passage.recorded_hears : (Passage.recorded (G := G)).Hears where
  quiet h := by
    refine ⟨Passage.traced_hears.quiet h, fun id => ?_⟩
    rw [h.statuses id, stamped, h.silent]
    rfl
  settle agent id status := by
    refine ⟨Passage.traced_hears.settle agent id status, fun other => ?_⟩
    have hlast := TraceLog.empty.last_status?_push ⟨agent.ticks, id, status⟩ other
    rw [agent.status?_settle]
    refine Eq.trans ?_ (congrArg (Option.or · (agent.status? other)) hlast.symm)
    by_cases hid : id = other <;> simp [hid]

/-! ## Updates and runs -/

namespace Passage.Hears

/-- A change that goes unrecorded keeps to a passage that hears of settlements. -/
theorem change (h : passage.Hears) {step : Agent G → Agent G}
    (hstep : ∀ agent : Agent G, agent.Unrecorded [] (step agent)) :
    (Play.change step).Keeps passage :=
  Play.keeps_change fun agent => h.quiet (hstep agent)

/-- A report keeps to a passage that hears of settlements. -/
theorem report (h : passage.Hears) (diagnostic : Diagnostic) :
    (Play.report diagnostic).Keeps passage :=
  Play.keeps_note fun _ => h.quiet ⟨rfl, rfl, fun _ => rfl, rfl⟩

/-- A pass through a tree takes a passage that hears of settlements, if the game does. -/
theorem pass (h : passage.Hears) (hrules : ∀ node, rules.Keep passage node) (tree : Tree G) :
    (Agent.pass rules kept elapsed tree).Keeps passage :=
  (h.execute fun other _ => hrules other).bind fun status =>
    (h.change fun agent => .with_status agent status).bind fun _ => Play.keeps_pure status

/-- The end of a tick keeps to a passage that hears of settlements. -/
theorem finish_tick (h : passage.Hears) : (Agent.finishTick (G := G)).Keeps passage :=
  (Play.keeps_look _).bind fun _ => (h.report _).bind fun _ => Play.keeps_pure _

/-- An update with an action ahead of the tree keeps to a passage that hears of settlements. -/
theorem update_pressed (h : passage.Hears) (hrules : ∀ node, rules.Keep passage node)
    (tree : Tree G) (action : Node G) :
    (Agent.updatePressed rules kept elapsed tree action).Keeps passage := by
  refine (h.execute fun other _ => hrules other).bind fun status => (Play.keeps_look _).bind
    fun _ => (h.report _).bind fun _ => Play.Keeps.ite ?_ ?_
  · exact (h.change fun agent => .with_status agent status).bind fun _ => Play.keeps_pure status
  · refine (h.change fun agent => ?_).bind fun _ => (h.pass hrules tree).bind fun _ =>
      (h.change fun agent => ?_).bind fun _ => h.finish_tick
    · exact .remember agent .completed _ status (by simp)
    · exact .forget agent .completed _ (by simp)

/-- An update that is not idle takes a passage that hears of settlements from the next tick on. -/
theorem update (h : passage.Hears) (hrules : ∀ node, rules.Keep passage node)
    (kept : NodeId → Bool) (elapsed : Nat) {agent : Agent G} (hpaused : agent.paused = false)
    (hbehavior : agent.behavior ≠ none) :
    let outcome := Agent.update rules kept elapsed agent
    passage.allows agent.nextTick outcome.notes outcome.agent := by
  obtain ⟨tree, htree⟩ := Option.ne_none_iff_exists'.1 hbehavior
  rw [Agent.update_attached hpaused htree]
  cases agent.pressingAction? kept with
  | none => exact ((h.pass hrules tree).bind fun _ => h.finish_tick) agent.nextTick
  | some action => exact h.update_pressed hrules tree action agent.nextTick

end Passage.Hears

/-- The last execution of an update that is not idle came to the status that the agent has from
then on. -/
theorem Agent.executions_update (rules : Rules G) (kept : NodeId → Bool) (elapsed : Nat)
    {agent : Agent G} (hpaused : agent.paused = false) (hbehavior : agent.behavior ≠ none) :
    let outcome := Agent.update rules kept elapsed agent
    ∃ early id, executions outcome.notes = early ++ [(id, outcome.agent.status)] := by
  have hcourse := agent.update_course rules kept elapsed
  generalize agent.updateVisits rules kept elapsed = visits at hcourse
  generalize Agent.update rules kept elapsed agent = outcome at hcourse
  cases hcourse with
  | idle hidle => simp [hpaused, hbehavior] at hidle
  | @free tree root _ _ _ hroot =>
      obtain ⟨early, hearly⟩ := tree.toNode.executions_execute rules (tree.inUse kept) elapsed
        agent.nextTick
      rw [← hroot] at hearly
      exact ⟨early, _, by rw [executions_append_reported, hearly]; rfl⟩
  | @busy tree action alone _ _ _ halone hrunning =>
      obtain ⟨early, hearly⟩ := action.executions_execute rules (tree.inUse kept) elapsed
        agent.nextTick
      rw [← halone, hrunning] at hearly
      exact ⟨early, _, by rw [executions_append_reported, hearly]; rfl⟩
  | @ended tree action alone root final _ _ _ _ _ hroot hfinal =>
      obtain ⟨early, hearly⟩ := tree.toNode.executions_execute rules (tree.inUse kept) elapsed
        (alone.agent.withWaiting action.id alone.value)
      rw [← hroot] at hearly
      refine ⟨executions alone.notes ++ early, tree.toNode.id, ?_⟩
      rw [executions_append, executions_reported, executions_append_reported, hearly, hfinal,
        List.append_assoc]
      rfl

/-- What a recording tells of an agent: the latest event of every node is its last status, and
the events are in the order of their ticks, none of which is to come. -/
structure Agent.Transcribed (agent : Agent G) (log : TraceLog) : Prop where
  trace : agent.trace = some log
  statuses : ∀ id, log.lastStatus? id = agent.status? id
  rising : log.events.Pairwise fun one other => one.tick ≤ other.tick
  stamps : ∀ event ∈ log.events, 1 ≤ event.tick ∧ event.tick ≤ agent.ticks

/-- What an update adds to a recording: nothing if it is idle, and otherwise events of the tick
that it begins, the last of which has the status that the agent comes out with. -/
structure Agent.Adds (before after : Agent G) (events : List TraceEvent) : Prop where
  idle : before.paused = true ∨ before.behavior = none → events = []
  number : before.paused = false → before.behavior ≠ none → after.ticks = before.ticks + 1
  stamps : ∀ event ∈ events, event.tick = after.ticks
  last : before.paused = false → before.behavior ≠ none →
    events.getLast?.map TraceEvent.status = some after.status

namespace Agent

/-- What is recorded in a later tick is transcribed at the end. -/
theorem Transcribed.extend {before after : Agent G} {log : TraceLog} {notes : List Note}
    (h : before.Transcribed log) (start : Agent G) (hcontext : start.context = before.context)
    (htrace : start.trace = before.trace) (hticks : before.ticks < start.ticks)
    (hrecorded : start.Recorded notes after) :
    after.Transcribed (log.extend (stamped start.ticks notes)) where
  trace := by rw [hrecorded.trace, htrace, h.trace, Option.map_some]
  statuses id := by
    have hstatus : start.status? id = before.status? id := by rw [status?, hcontext, status?]
    rw [TraceLog.last_status?_extend, h.statuses, hrecorded.statuses, hstatus]
  rising := by
    refine List.pairwise_append.2 ⟨h.rising, ?_, fun one hone other hother => ?_⟩
    · refine List.pairwise_of_forall_mem_list fun one hone other hother => ?_
      rw [tick_of_mem_stamped hone, tick_of_mem_stamped hother]
    · rw [tick_of_mem_stamped hother]
      exact Nat.le_of_lt (Nat.lt_of_le_of_lt (h.stamps one hone).2 hticks)
  stamps event hevent := by
    rw [hrecorded.ticks]
    rcases List.mem_append.1 hevent with hold | hnew
    · have hstamps := h.stamps event hold
      omega
    · rw [tick_of_mem_stamped hnew]
      omega

/-- After an update a recording goes on telling of its agent, with the events that the update adds.
-/
theorem Transcribed.update (hrules : rules.Unrecorded) (kept : NodeId → Bool) (elapsed : Nat)
    {agent : Agent G} {log : TraceLog} (h : agent.Transcribed log) :
    let after := (Agent.update rules kept elapsed agent).agent
    ∃ events, after.Transcribed (log.extend events) ∧ agent.Adds after events := by
  by_cases hidle : agent.paused = true ∨ agent.behavior = none
  · rw [update_idle hidle]
    refine ⟨[], by rwa [TraceLog.extend_nil], fun _ => rfl, ?_, by simp, ?_⟩
    all_goals
      intro hpaused hbehavior
      simp [hpaused, hbehavior] at hidle
  · simp only [not_or, Bool.not_eq_true] at hidle
    obtain ⟨hpaused, hbehavior⟩ := hidle
    have hrecorded := Passage.recorded_hears.update
      (hrules.keep Passage.recorded_hears) kept elapsed hpaused hbehavior
    obtain ⟨early, id, hlast⟩ := executions_update rules kept elapsed hpaused hbehavior
    have hticks : agent.ticks < agent.nextTick.ticks := Nat.lt_succ_self _
    refine ⟨_, h.extend agent.nextTick rfl rfl hticks hrecorded, ?_,
      fun _ _ => hrecorded.ticks, ?_, ?_⟩
    · rintro (hp | hb)
      · simp [hpaused] at hp
      · exact absurd hb hbehavior
    · intro event hevent
      rw [tick_of_mem_stamped hevent, hrecorded.ticks]
    · intro _ _
      simp [stamped, hlast]

/-- Changes elsewhere leave a transcription as it is. -/
theorem Transcribed.move {before after : Agent G} {log : TraceLog} (h : before.Transcribed log)
    (hcontext : after.context = before.context) (htrace : after.trace = before.trace)
    (hticks : after.ticks = before.ticks) : after.Transcribed log where
  trace := htrace.trans h.trace
  statuses id := by rw [h.statuses, status?, status?, hcontext]
  rising := h.rising
  stamps event hevent := hticks ▸ h.stamps event hevent

/-- The empty recording of a new agent tells of it. -/
theorem transcribed_fresh (entity : EntityId) :
    (Agent.fresh (G := G) entity).enableTrace.Transcribed .empty where
  trace := rfl
  statuses _ := rfl
  rising := .nil
  stamps := by simp [TraceLog.empty]

end Agent

namespace Command

/-- Every command leaves a transcription behind. -/
theorem play_transcribed (hrules : rules.Unrecorded) (command : Command G) {agent : Agent G}
    {log : TraceLog} (h : agent.Transcribed log) :
    ∃ later, (command.play rules agent).agent.Transcribed later := by
  cases command with
  | update kept elapsed =>
      obtain ⟨events, hafter, -⟩ := h.update hrules kept elapsed
      exact ⟨_, hafter⟩
  | setBehavior kept tree =>
      refine ⟨log, ?_⟩
      rw [play, Play.map_apply, (Agent.set_behavior_apply kept tree agent).1]
      exact h.move rfl rfl rfl
  | takeBehavior | setSelection | setPaused => exact ⟨log, h.move rfl rfl rfl⟩

/-- After commands the recording tells of the agent if it did before. -/
theorem play_all_transcribed (hrules : rules.Unrecorded) (commands : List (Command G))
    {agent : Agent G} {log : TraceLog} (h : agent.Transcribed log) :
    ∃ later, (playAll rules commands agent).agent.Transcribed later := by
  induction commands generalizing agent log with
  | nil => exact ⟨log, h⟩
  | cons command rest ih =>
      obtain ⟨later, hlater⟩ := command.play_transcribed hrules h
      exact ih hlater

end Command

/-- The recording of an agent that is traced from the start mirrors its last statuses after every
run, and every update adds to it what it executed. -/
theorem trace_mirrors_statuses (hrules : rules.Unrecorded) (entity : EntityId)
    (commands : List (Command G)) :
    let agent := (Command.playAll rules commands (Agent.fresh entity).enableTrace).agent
    ∃ log, agent.Transcribed log ∧ ∀ kept elapsed,
      let after := (Agent.update rules kept elapsed agent).agent
      ∃ events, after.trace = some (log.extend events) ∧ agent.Adds after events := by
  obtain ⟨log, hlog⟩ :=
    Command.play_all_transcribed hrules commands (Agent.transcribed_fresh entity)
  refine ⟨log, hlog, fun kept elapsed => ?_⟩
  obtain ⟨events, hafter, hadds⟩ := hlog.update hrules kept elapsed
  exact ⟨events, hafter.trace, hadds⟩

/-- An update on which a leaf hands its result over records the leaf twice. -/
theorem trace_mirrors_statuses_sole :
    let commands := [.setBehavior (fun _ => false) soleTree, .update (fun _ => false) 1]
    let agent := (Command.playAll (Rules.clocked deadline) commands
      (Agent.fresh 7).enableTrace).agent
    let after := (Agent.update (Rules.clocked deadline) (fun _ => false) 2 agent).agent
    agent.trace = some ⟨[⟨1, ⟨0⟩, .running⟩, ⟨1, ⟨1⟩, .running⟩]⟩ ∧
      ∃ log, agent.Transcribed log ∧
        ∃ events, after.trace = some (log.extend events) ∧ agent.Adds after events ∧
          events = [⟨2, ⟨0⟩, .finished⟩, ⟨2, ⟨0⟩, .finished⟩, ⟨2, ⟨1⟩, .finished⟩] := by
  intro commands agent after
  have htrace : agent.trace = some ⟨[⟨1, ⟨0⟩, .running⟩, ⟨1, ⟨1⟩, .running⟩]⟩ := by rfl
  have hafter : after.trace = some ⟨[⟨1, ⟨0⟩, .running⟩, ⟨1, ⟨1⟩, .running⟩, ⟨2, ⟨0⟩, .finished⟩,
      ⟨2, ⟨0⟩, .finished⟩, ⟨2, ⟨1⟩, .finished⟩]⟩ := by rfl
  obtain ⟨log, hlog, hupdate⟩ :=
    trace_mirrors_statuses (Rules.clocked_unrecorded deadline) 7 commands
  obtain ⟨events, hevents, hadds⟩ := hupdate (fun _ => false) 2
  refine ⟨htrace, log, hlog, events, hevents, hadds, ?_⟩
  have hsame := hlog.trace.symm.trans htrace
  have hextended := hevents.symm.trans hafter
  simp only [Option.some.injEq] at hsame hextended
  simpa [hsame, TraceLog.extend] using hextended

end BehaviorTree
