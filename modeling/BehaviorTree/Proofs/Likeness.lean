import BehaviorTree.Proofs.LeafRun
import BehaviorTree.Proofs.Relaxed

/-!
# Agents that are alike

Two agents are `Agent.Alike` when they differ at most in what the must-complete flags of a tree
change: the flags themselves, the current action and the results that wait. Rules are
`Rules.Blind` when they answer alike agents alike.

A relation between two plays, `Play.Matches`, is carried along compositions: from alike agents
both give the same value, make the same calls and leave alike agents. An execution of a tree
matches the one of the relaxed tree (`Node.execute_matches`) as long as no result waits.
-/

namespace BehaviorTree

variable {G : Game} {α β : Type} {rules : Rules G}

/-! ## Alike agents -/

/-- What depends on must-complete flags: the current action and waiting results. -/
def Region.hidden : Region G := fun slot _ => slot = .currentAction ∨ slot = .completed

namespace Agent

/-- The second agent is what the first one is like when the flags of its tree are taken away. -/
structure Alike (one other : Agent G) : Prop where
  entity : other.entity = one.entity
  behavior : other.behavior = one.behavior.map Tree.relaxed
  status : other.status = one.status
  paused : other.paused = one.paused
  zone : other.zone = one.zone
  ticks : other.ticks = one.ticks
  selection : other.selection = one.selection
  trace : other.trace = one.trace
  spares : one.Spares .hidden other

/-- Nothing has changed but the current action and waiting results. -/
structure Hides (before after : Agent G) : Prop extends before.Touches .hidden after where
  selection : after.selection = before.selection

/-- Whoever does nothing hides nothing. -/
theorem Hides.refl (agent : Agent G) : agent.Hides agent := ⟨.refl agent, rfl⟩

/-- Hidden changes one after the other are hidden. -/
theorem Hides.trans {first second third : Agent G} (hfirst : first.Hides second)
    (hsecond : second.Hides third) : first.Hides third where
  toTouches := hfirst.toTouches.trans hsecond.toTouches
  selection := hsecond.selection.trans hfirst.selection

/-- To remember something that depends on flags is hidden. -/
theorem hides_remember (agent : Agent G) (slot : Slot G) {key : Nat} (value : slot.Value)
    (h : Region.hidden slot key) : agent.Hides (agent.remember slot key value) :=
  ⟨agent.touches_remember _ slot value h, rfl⟩

/-- To forget something that depends on flags is hidden. -/
theorem hides_forget (agent : Agent G) {slot : Slot G} {key : Nat}
    (h : Region.hidden slot key) : agent.Hides (agent.forget slot key) :=
  ⟨⟨⟨rfl, rfl, rfl, rfl, rfl, rfl⟩, rfl, agent.spares_forget _ h⟩, rfl⟩

/-- Storing what is stored already changes nothing. -/
theorem hides_restore (agent : Agent G) (slot : Slot G) {key : Nat} {value : slot.Value}
    (h : agent.context.get? slot key = some value) :
    agent.Hides (agent.remember slot key value) := by
  refine ⟨⟨⟨rfl, rfl, rfl, rfl, rfl, rfl⟩, rfl, fun place k _ => ?_⟩, rfl⟩
  by_cases hsame : place = slot ∧ k = key
  · obtain ⟨rfl, rfl⟩ := hsame
    exact (agent.context.get?_set_self place k value).trans h.symm
  · exact agent.get?_remember_of_ne slot value hsame

/-- To settle the status that is stored already is hidden, if nothing is traced. -/
theorem hides_resettle (agent : Agent G) {id : NodeId} {status : Status}
    (h : agent.status? id = some status) (htrace : agent.trace = none) :
    agent.Hides (agent.settle id status) := by
  refine ⟨⟨agent.stands_settle id status, ?_, (agent.hides_restore .status h).spares⟩, rfl⟩
  show agent.trace.map _ = agent.trace
  rw [htrace]
  rfl

/-- To hold an action is hidden. -/
theorem hides_hold (kept : NodeId → Bool) (agent : Agent G) (action : Node G) :
    agent.Hides (agent.hold kept action) := by
  unfold hold
  split
  · split
    · exact .refl agent
    · exact agent.hides_remember .currentAction action (.inl rfl)
  · exact agent.hides_remember .currentAction action (.inl rfl)

/-- To release an action is hidden. -/
theorem hides_release (agent : Agent G) (id : NodeId) : agent.Hides (agent.release id) := by
  unfold release
  split
  · split
    · exact agent.hides_forget (.inl rfl)
    · exact .refl agent
  · exact .refl agent

/-- To follow up a leaf is hidden. -/
theorem hides_follow (kept : NodeId → Bool) (agent : Agent G) (action : Node G)
    (status : Status) : agent.Hides (agent.follow kept action status) := by
  cases status with
  | running => exact agent.hides_hold kept action
  | finished | failed => exact agent.hides_release action.id
  | unknown | canNotExecute => exact .refl agent

/-- Agents that spare each other's entries do so in both directions. -/
theorem Spares.symm {region : Region G} {before after : Agent G} (h : before.Spares region after) :
    after.Spares region before := fun slot key hout => (h slot key hout).symm

namespace Alike

variable {one other : Agent G}

/-- Hidden changes on either side leave agents alike. -/
theorem of_hides (h : one.Alike other) {one' other' : Agent G} (hone : one.Hides one')
    (hother : other.Hides other') : one'.Alike other' where
  entity := by rw [hone.stands.entity, hother.stands.entity, h.entity]
  behavior := by rw [hone.stands.behavior, hother.stands.behavior, h.behavior]
  status := by rw [hone.stands.status, hother.stands.status, h.status]
  paused := by rw [hone.stands.paused, hother.stands.paused, h.paused]
  zone := by rw [hone.stands.zone, hother.stands.zone, h.zone]
  ticks := by rw [hone.stands.ticks, hother.stands.ticks, h.ticks]
  selection := by rw [hone.selection, hother.selection, h.selection]
  trace := by rw [hone.trace, hother.trace, h.trace]
  spares := (hone.spares.symm.trans h.spares).trans hother.spares

/-- Alike agents keep the same, apart from what depends on flags. -/
theorem get?_eq (h : one.Alike other) {slot : Slot G}
    (hslot : slot ≠ .currentAction ∧ slot ≠ .completed) (key : Nat) :
    other.context.get? slot key = one.context.get? slot key :=
  h.spares slot key (not_or.2 hslot)

/-- Alike agents have stored the same statuses. -/
theorem status_of_eq (h : one.Alike other) (id : NodeId) : other.statusOf id = one.statusOf id :=
  h.spares.status_of_eq (by simp [Region.hidden])

/-- Alike agents have stored the same positions. -/
theorem position?_eq (h : one.Alike other) (id : NodeId) :
    other.position? id = one.position? id := h.spares.position?_eq (by simp [Region.hidden])

/-- Alike agents stand at the same positions. -/
theorem resume_index_of_eq (h : one.Alike other) (id : NodeId) :
    other.resumeIndexOf id = one.resumeIndexOf id :=
  h.spares.resume_index_of_eq (by simp [Region.hidden])

/-- Alike agents have counted the same. -/
theorem exec_count_of_eq (h : one.Alike other) (id : NodeId) :
    other.execCountOf id = one.execCountOf id := h.spares.exec_count_of_eq (by simp [Region.hidden])

/-- Alike agents have the same countdowns. -/
theorem timer_of_eq (h : one.Alike other) (id : NodeId) : other.timerOf id = one.timerOf id :=
  h.spares.timer_of_eq (by simp [Region.hidden])

/-- The same value stored on both sides leaves agents alike. -/
theorem remember (h : one.Alike other) (slot : Slot G) (key : Nat) (value : slot.Value) :
    (one.remember slot key value).Alike (other.remember slot key value) where
  entity := h.entity
  behavior := h.behavior
  status := h.status
  paused := h.paused
  zone := h.zone
  ticks := h.ticks
  selection := h.selection
  trace := h.trace
  spares := h.spares.remember slot key value

/-- The same value dropped on both sides leaves agents alike. -/
theorem forget (h : one.Alike other) (slot : Slot G) (key : Nat) :
    (one.forget slot key).Alike (other.forget slot key) where
  entity := h.entity
  behavior := h.behavior
  status := h.status
  paused := h.paused
  zone := h.zone
  ticks := h.ticks
  selection := h.selection
  trace := h.trace
  spares := h.spares.forget slot key

/-- The same result settled on both sides leaves agents alike. -/
theorem settle (h : one.Alike other) (id : NodeId) (status : Status) :
    (one.settle id status).Alike (other.settle id status) := by
  have hstored := h.remember .status id.raw status
  refine { hstored with trace := ?_ }
  show (other.trace.map fun log => log.push ⟨other.ticks, id, status⟩) =
    one.trace.map fun log => log.push ⟨one.ticks, id, status⟩
  rw [h.trace, h.ticks]

/-- Alike agents stay so when their selections are changed alike. -/
theorem select (h : one.Alike other) (change : List EntityId → List EntityId) :
    (one.select change).Alike (other.select change) :=
  { h with
    selection := congrArg change h.selection
    spares := h.spares }

end Alike

/-- Alike agents that are not traced and for which no result waits. -/
structure Twins (one other : Agent G) : Prop extends one.Alike other where
  untraced : one.trace = none
  noneWaiting : one.NoneWaiting ∧ other.NoneWaiting

end Agent

/-! ## Calls -/

namespace Note

/-- Whether a note tells of a call of the game: a fresh entry of a leaf, a run of its logic or
the evaluation of a condition. -/
def isCall : Note → Bool
  | entered _ | acted _ _ | tested _ _ _ => true
  | executed _ _ | reported _ => false

/-- A report is no call. -/
theorem IsReport.is_call_eq_false {note : Note} (h : note.IsReport) : note.isCall = false := by
  cases note with
  | reported => rfl
  | entered | acted | tested | executed => exact h.elim

end Note

/-- The calls among some notes, in order. -/
def calls (notes : List Note) : List Note := notes.filter Note.isCall

/-- Among no notes there are no calls. -/
@[simp] theorem calls_nil : calls [] = [] := rfl

/-- The calls among more notes come behind those among the first ones. -/
@[simp] theorem calls_append (early late : List Note) :
    calls (early ++ late) = calls early ++ calls late := List.filter_append ..

/-- Among reports there are no calls. -/
theorem calls_of_reports {notes : List Note} (h : ∀ note ∈ notes, note.IsReport) :
    calls notes = [] :=
  List.filter_eq_nil_iff.2 fun note hnote => by simp [(h note hnote).is_call_eq_false]

/-! ## Matching plays -/

/-- Two outcomes match when they have the same value, the agents are twins, and the second made
the calls of the first after some early ones. -/
structure Outcome.Matches (early : List Note) (one other : Outcome G α) : Prop where
  value : other.value = one.value
  calls : calls other.notes = early ++ calls one.notes
  twins : one.agent.Twins other.agent

/-- From twins two plays give matching outcomes. -/
def Play.Matches (one other : Play G α) : Prop :=
  ∀ first second : Agent G, first.Twins second → (one first).Matches [] (other second)

/-- What follows matching outcomes in a matching way gives matching outcomes. -/
theorem Outcome.Matches.bind {early : List Note} {one other : Play G α}
    {next next' : α → Play G β} {first second : Agent G}
    (h : (one first).Matches early (other second))
    (hnext : ∀ value, (next value).Matches (next' value)) :
    ((one >>= next) first).Matches early ((other >>= next') second) := by
  have hlater := hnext (one first).value _ _ h.twins
  refine ⟨?_, ?_, ?_⟩
  · rw [Play.bind_apply, Play.bind_apply, h.value]
    exact hlater.value
  · rw [Play.bind_apply, Play.bind_apply, h.value, calls_append, calls_append, h.calls,
      List.append_assoc]
    exact congrArg _ (congrArg _ hlater.calls)
  · rw [Play.bind_apply, Play.bind_apply, h.value]
    exact hlater.twins

namespace Play

/-- Plays one after the other match if the first ones do and what follows does for every value. -/
theorem Matches.bind {one other : Play G α} {next next' : α → Play G β}
    (h : one.Matches other) (hnext : ∀ value, (next value).Matches (next' value)) :
    (one >>= next).Matches (other >>= next') :=
  fun first second htwins => (h first second htwins).bind hnext

/-- A value matches itself. -/
theorem matches_pure (value : α) : (pure value : Play G α).Matches (pure value) :=
  fun _ _ htwins => ⟨rfl, rfl, htwins⟩

/-- A look matches itself if it sees the same in alike agents. -/
theorem matches_look {view : Agent G → α}
    (h : ∀ {one other : Agent G}, one.Alike other → view other = view one) :
    (look view).Matches (look view) := fun _ _ htwins => ⟨h htwins.toAlike, rfl, htwins⟩

/-- Changes match if they keep twins alike. -/
theorem matches_change {step step' : Agent G → Agent G}
    (h : ∀ {one other : Agent G}, one.Twins other → (step one).Twins (step' other)) :
    (change step).Matches (change step') := fun _ _ htwins => ⟨rfl, rfl, h htwins⟩

/-- A note matches itself. -/
theorem matches_note (what : Note) : (note (G := G) what).Matches (note what) :=
  fun _ _ htwins => ⟨rfl, rfl, htwins⟩

/-- Reports match whatever they say. -/
theorem matches_report (one other : Diagnostic) : (report (G := G) one).Matches (report other) :=
  fun _ _ htwins => ⟨rfl, rfl, htwins⟩

/-- Both branches of a choice that is made alike may match each on its own. -/
theorem Matches.ite {condition : Prop} [Decidable condition] {yes yes' no no' : Play G α}
    (hyes : yes.Matches yes') (hno : no.Matches no') :
    (if condition then yes else no).Matches (if condition then yes' else no') := by
  split
  · exact hyes
  · exact hno

/-- Alike agents come out with the same value, and alike. -/
def Likewise (one other : Play G α) : Prop :=
  ∀ first second : Agent G, first.Alike second →
    (other second).value = (one first).value ∧ (one first).agent.Alike (other second).agent

/-- Plays that treat alike agents alike match, as long as they touch no more than a leaf may. -/
theorem Likewise.matches {one other : Play G α} (h : one.Likewise other) {id : NodeId}
    (hone : one.StaysIn (.ofLeaf id)) (hother : other.StaysIn (.ofLeaf id)) :
    one.Matches other := by
  intro first second htwins
  obtain ⟨hvalue, halike⟩ := h first second htwins.toAlike
  obtain ⟨htouches, hnotes⟩ := hone first
  obtain ⟨htouches', hnotes'⟩ := hother second
  refine ⟨hvalue, by rw [calls_of_reports hnotes, calls_of_reports hnotes', List.append_nil],
    halike, htouches.trace.trans htwins.untraced, fun other => ?_, fun other => ?_⟩
  · exact (htouches.waiting?_eq other).trans (htwins.noneWaiting.1 other)
  · exact (htouches'.waiting?_eq other).trans (htwins.noneWaiting.2 other)

/-- What stays in what belongs to the game touches no more than a leaf may. -/
theorem StaysIn.of_leaf {play : Play G α} (h : play.StaysIn .ofGame) (id : NodeId) :
    play.StaysIn (.ofLeaf id) := fun agent => ⟨(h agent).1.of_game id, (h agent).2⟩

end Play

/-- The logic of a game does not see what the must-complete flags change. -/
structure Rules.Blind (rules : Rules G) : Prop where
  enter : ∀ leaf id, (rules.enter leaf id).Likewise (rules.enter leaf id)
  act : ∀ leaf id elapsed, (rules.act leaf id elapsed).Likewise (rules.act leaf id elapsed)
  test : ∀ test node, (rules.test test node).Likewise (rules.test test node.relaxed)
  sift : ∀ sieve, (rules.sift sieve).Likewise (rules.sift sieve)

/-- Leaves that answer by the length of the tick see nothing of an agent. -/
theorem Rules.clocked_blind {Leaf : Type} (answer : Leaf → Nat → Status) :
    (Rules.clocked answer).Blind where
  enter _ _ _ _ h := ⟨rfl, h⟩
  act _ _ _ _ _ h := ⟨rfl, h⟩
  test := nofun
  sift := nofun

namespace Agent.Twins

variable {one other : Agent G}

/-- Changes on both sides that make no result wait and leave alike agents alike. -/
theorem step (h : one.Twins other) (region : Region G)
    (hregion : ∀ key, ¬ region .completed key) {one' other' : Agent G}
    (halike : one'.Alike other') (htrace : one'.trace = one.trace)
    (hone : one.Spares region one') (hother : other.Spares region other') :
    one'.Twins other' where
  toAlike := halike
  untraced := htrace.trans h.untraced
  noneWaiting :=
    ⟨fun id => (hone.waiting?_eq (hregion id.raw)).trans (h.noneWaiting.1 id),
      fun id => (hother.waiting?_eq (hregion id.raw)).trans (h.noneWaiting.2 id)⟩

/-- Twins stay alike when both remember the same, unless it is a waiting result. -/
theorem remember (h : one.Twins other) (slot : Slot G) (hslot : slot ≠ .completed) (key : Nat)
    (value : slot.Value) : (one.remember slot key value).Twins (other.remember slot key value) :=
  h.step (fun place _ => place = slot) (fun _ heq => hslot heq.symm)
    (h.toAlike.remember slot key value) rfl (one.spares_remember _ slot value rfl)
    (other.spares_remember _ slot value rfl)

/-- Twins stay alike when both forget the same, unless it is a waiting result. -/
theorem forget (h : one.Twins other) (slot : Slot G) (hslot : slot ≠ .completed) (key : Nat) :
    (one.forget slot key).Twins (other.forget slot key) :=
  h.step (fun place _ => place = slot) (fun _ heq => hslot heq.symm)
    (h.toAlike.forget slot key) rfl (one.spares_forget _ rfl) (other.spares_forget _ rfl)

/-- Twins stay alike when the same result is settled for both. -/
theorem settle (h : one.Twins other) (id : NodeId) (status : Status) :
    (one.settle id status).Twins (other.settle id status) := by
  have htrace : (one.settle id status).trace = one.trace := by
    show one.trace.map _ = _
    rw [h.untraced]
    rfl
  exact h.step (fun place _ => place = .status) (by simp) (h.toAlike.settle id status) htrace
    (one.spares_settle _ status rfl) (other.spares_settle _ status rfl)

/-- Twins stay alike when their selections are changed alike. -/
theorem select (h : one.Twins other) (change : List EntityId → List EntityId) :
    (one.select change).Twins (other.select change) :=
  h.step (fun _ _ => False) (by simp) (h.toAlike.select change) rfl (fun _ _ _ => rfl)
    fun _ _ _ => rfl

/-- Hidden changes on either side leave agents twins if no result waits afterwards. -/
theorem of_hides (h : one.Twins other) {one' other' : Agent G} (hone : one.Hides one')
    (hother : other.Hides other') (hnone : one'.NoneWaiting) (hnone' : other'.NoneWaiting) :
    one'.Twins other' where
  toAlike := h.toAlike.of_hides hone hother
  untraced := hone.trace.trans h.untraced
  noneWaiting := ⟨hnone, hnone'⟩

/-- Agents stay twins when the second stores a position that the first has stored. -/
theorem reposition_right (h : one.Twins other) {id : NodeId} {index : Nat}
    (hstored : one.position? id = some index) :
    one.Twins (other.remember .resumeIndex id.raw index) := by
  refine h.of_hides (.refl one) ?_ h.noneWaiting.1 fun id => ?_
  · exact other.hides_restore .resumeIndex ((h.position?_eq id).trans hstored)
  · exact ((other.spares_remember (fun slot _ => slot = .resumeIndex) .resumeIndex index
      rfl).waiting?_eq (by simp)).trans (h.noneWaiting.2 id)

/-- Agents stay twins when the second settles a result that the first has stored. -/
theorem settle_right (h : one.Twins other) {id : NodeId} {status : Status}
    (hstored : one.status? id = some status) : one.Twins (other.settle id status) := by
  refine h.of_hides (.refl one) ?_ h.noneWaiting.1
    fun id => (other.waiting?_settle _ id status).trans (h.noneWaiting.2 id)
  exact other.hides_resettle ((h.get?_eq (by simp) id.raw).trans hstored)
    (h.trace.trans h.untraced)

end Agent.Twins

/-! ## Matching gates -/

/-- A filter matches itself. -/
theorem Filter.run_matches (hrules : rules.Modest) (hblind : rules.Blind) (filter : Filter G) :
    (filter.run rules).Matches (filter.run rules) := by
  cases filter with
  | clear => exact Play.matches_change fun htwins => htwins.select fun _ => []
  | unique => exact Play.matches_change fun htwins => htwins.select Selection.unique
  | first count => exact Play.matches_change fun htwins => htwins.select (List.take count)
  | exclude =>
      refine Play.matches_change fun {one other} htwins => ?_
      rw [htwins.entity]
      exact htwins.select (Selection.exclude one.entity)
  | game name sieve =>
      have hstay := (hrules.sift sieve).of_leaf ⟨0⟩
      exact (hblind.sift sieve).matches hstay hstay

namespace Condition

variable {node : Node G}

/-- A condition that is noted matches one that is noted for the relaxed node. -/
theorem noted_matches (name : String) {holds holds' : Play G Bool} (h : holds.Matches holds') :
    (noted node name holds).Matches (noted node.relaxed name holds') := by
  refine h.bind fun answer => Play.Matches.bind ?_ fun _ => Play.matches_pure answer
  rw [node.id_relaxed]
  exact Play.matches_note _

/-- The question whether anything is selected matches itself. -/
theorem any_selected_matches (hrules : rules.Modest) (hblind : rules.Blind)
    (filter : Option (Filter G)) :
    (anySelected rules filter).Matches (anySelected rules filter) := by
  have hlook : (Play.look fun agent : Agent G => !agent.selection.isEmpty).Matches
      (Play.look fun agent => !agent.selection.isEmpty) :=
    Play.matches_look fun h => by rw [h.selection]
  cases filter with
  | none => exact (Play.matches_pure ()).bind fun _ => hlook
  | some filter => exact (filter.run_matches hrules hblind).bind fun _ => hlook

mutual

/-- The evaluation of a condition matches the one for the relaxed node. -/
theorem evaluate_matches (hrules : rules.Modest) (hblind : rules.Blind) :
    ∀ condition : Condition G,
      (condition.evaluate rules node).Matches (condition.evaluate rules node.relaxed)
  | always => noted_matches "True" (Play.matches_pure true)
  | never => noted_matches "False" (Play.matches_pure false)
  | conjunction conditions => evaluate_all_matches hrules hblind conditions
  | disjunction conditions => evaluate_any_matches hrules hblind conditions
  | negation inner => evaluate_not_matches hrules hblind inner
  | selection filter => noted_matches "Filter" (any_selected_matches hrules hblind filter)
  | game name test =>
      noted_matches name ((hblind.test test node).matches
        ((hrules.test test node).of_leaf ⟨0⟩) ((hrules.test test node.relaxed).of_leaf ⟨0⟩))

/-- The evaluation of a conjunction's members matches the one for the relaxed node. -/
theorem evaluate_all_matches (hrules : rules.Modest) (hblind : rules.Blind) :
    ∀ conditions : List (Condition G),
      (evaluateAll rules node conditions).Matches (evaluateAll rules node.relaxed conditions)
  | [] => Play.matches_pure true
  | condition :: rest =>
      (evaluate_matches hrules hblind condition).bind fun _ =>
        (evaluate_all_matches hrules hblind rest).ite (Play.matches_pure false)

/-- The evaluation of a disjunction's members matches the one for the relaxed node. -/
theorem evaluate_any_matches (hrules : rules.Modest) (hblind : rules.Blind) :
    ∀ conditions : List (Condition G),
      (evaluateAny rules node conditions).Matches (evaluateAny rules node.relaxed conditions)
  | [] => Play.matches_pure false
  | condition :: rest =>
      (evaluate_matches hrules hblind condition).bind fun _ =>
        (Play.matches_pure true).ite (evaluate_any_matches hrules hblind rest)

/-- The evaluation of what is negated matches the one for the relaxed node. -/
theorem evaluate_not_matches (hrules : rules.Modest) (hblind : rules.Blind) :
    ∀ inner : Option (Condition G),
      (evaluateNot rules node inner).Matches (evaluateNot rules node.relaxed inner)
  | none => (Play.matches_report _ _).bind fun _ => Play.matches_pure false
  | some condition =>
      (evaluate_matches hrules hblind condition).bind fun holds => Play.matches_pure (!holds)

end

end Condition

/-! ## Matching executions -/

namespace Node

variable {kept kept' : NodeId → Bool} {elapsed : Nat}

/-- A gate matches the one of the relaxed node. -/
theorem open_matches (hrules : rules.Modest) (hblind : rules.Blind) (node : Node G) :
    (node.open rules).Matches (node.relaxed.open rules) := by
  unfold Node.open
  rw [gate_relaxed]
  cases node.gate with
  | none => exact Play.matches_pure true
  | some condition => exact condition.evaluate_matches hrules hblind

/-- A fresh entry matches the one of the relaxed node. -/
theorem entry_matches (hrules : rules.Modest) (hblind : rules.Blind) (node : Node G) :
    (node.entry rules).Matches (node.relaxed.entry rules) := by
  rw [entry_relaxed]
  cases node with
  | composite head kind children =>
      cases kind with
      | sequence | priority =>
          exact Play.matches_change fun htwins =>
            htwins.remember .resumeIndex (by simp) head.id.raw (0 : Nat)
      | parallel => exact Play.matches_pure ()
  | decorator head kind child => exact Play.matches_pure ()
  | timed head duration mustComplete =>
      exact (Play.matches_change fun htwins =>
        htwins.remember .timer (by simp) head.id.raw Timer.unarmed).bind
          fun _ => Play.matches_note _
  | action head name mustComplete leaf =>
      have hstay := hrules.enter leaf head.id
      exact ((hblind.enter leaf head.id).matches hstay hstay).bind fun _ => Play.matches_note _

/-- An approach matches the one of the relaxed node. -/
theorem approach_matches (hrules : rules.Modest) (hblind : rules.Blind) (node : Node G) :
    (node.approach rules).Matches (node.relaxed.approach rules) := by
  refine Play.Matches.bind ?_ fun _ => node.open_matches hrules hblind
  unfold freshen
  rw [id_relaxed]
  exact (Play.matches_look fun h => by rw [h.status_of_eq node.id]).bind fun last =>
    (Play.matches_pure ()).ite (node.entry_matches hrules hblind)

/-- The end of an execution matches the one of the relaxed node. -/
theorem conclude_matches (node : Node G) (status : Status) :
    (node.conclude status).Matches (node.relaxed.conclude status) := by
  unfold conclude
  rw [id_relaxed]
  exact (Play.matches_change fun htwins => htwins.settle node.id status).bind fun _ =>
    (Play.matches_note _).bind fun _ => Play.matches_pure status

/-- A visit matches one of the relaxed node if the logic does and what follows the result. -/
theorem visit_matches (hrules : rules.Modest) (hblind : rules.Blind) (node : Node G)
    {run run' : Play G Status} {after after' : Status → Play G Unit} (hrun : run.Matches run')
    (hafter : ∀ status, (after status).Matches (after' status)) :
    (node.visit rules (node.entry rules) run after).Matches
      (node.relaxed.visit rules (node.relaxed.entry rules) run' after') := by
  rw [visit_eq, visit_eq, id_relaxed, family_relaxed]
  refine (node.approach_matches hrules hblind).bind fun isOpen => Play.Matches.ite ?_ ?_
  · exact hrun.bind fun status => (hafter status).bind fun _ => node.conclude_matches status
  · refine (Play.matches_change fun {one other} htwins => ?_).bind fun _ =>
      node.conclude_matches .canNotExecute
    split
    · exact htwins.of_hides (one.hides_release node.id) (other.hides_release node.id)
        (fun id => (one.waiting?_release node.id id).trans (htwins.noneWaiting.1 id))
        fun id => (other.waiting?_release node.id id).trans (htwins.noneWaiting.2 id)
    · exact htwins

/-- A walk matches the one over the relaxed children if the executions of the children match. -/
theorem walk_matches (advance : Status) {children : List (Node G)}
    (h : ∀ child ∈ children,
      (child.execute rules kept elapsed).Matches (child.relaxed.execute rules kept' elapsed))
    (skip index : Nat) :
    (walk rules kept elapsed advance skip index children).Matches
      (walk rules kept' elapsed advance skip index (children.map relaxed)) := by
  induction children generalizing skip index with
  | nil => cases skip <;> exact Play.matches_pure none
  | cons child rest ih =>
      have hrest := ih fun node hnode => h node (List.mem_cons_of_mem child hnode)
      cases skip with
      | succ skip => exact hrest skip (index + 1)
      | zero =>
          exact (h child List.mem_cons_self).bind fun status =>
            (hrest 0 (index + 1)).ite (Play.matches_pure (some (index, status)))

/-- A parallel run matches the one of the relaxed children if the executions of the children match.
-/
theorem execute_all_matches {children : List (Node G)}
    (h : ∀ child ∈ children,
      (child.execute rules kept elapsed).Matches (child.relaxed.execute rules kept' elapsed)) :
    (executeAll rules kept elapsed children).Matches
      (executeAll rules kept' elapsed (children.map relaxed)) := by
  induction children with
  | nil => exact Play.matches_pure false
  | cons child rest ih =>
      have hrest := ih fun node hnode => h node (List.mem_cons_of_mem child hnode)
      exact (h child List.mem_cons_self).bind fun status =>
        hrest.bind fun running => Play.matches_pure (status.isRunning || running)

/-- The execution of a decorator's child matches the one of the relaxed child if there is a child.
-/
theorem execute_child_matches {child : Option (Node G)}
    (h : ∀ node ∈ child,
      (node.execute rules kept elapsed).Matches (node.relaxed.execute rules kept' elapsed)) :
    (executeChild rules kept elapsed child).Matches
      (executeChild rules kept' elapsed (child.map relaxed)) := by
  cases child with
  | none => exact Play.matches_pure none
  | some node => exact (h node rfl).bind fun status => Play.matches_pure (some status)

/-- The end of a walk matches itself. -/
theorem settle_walk_matches (id : NodeId) (exhausted : Status) (stop : Option (Nat × Status)) :
    (settleWalk id exhausted stop : Play G Status).Matches (settleWalk id exhausted stop) := by
  rcases stop with _ | ⟨index, status⟩
  · exact (Play.matches_change fun htwins =>
      htwins.forget .resumeIndex (by simp) id.raw).bind fun _ => Play.matches_pure exhausted
  · exact (Play.matches_change fun htwins =>
      htwins.remember .resumeIndex (by simp) id.raw index).bind fun _ => Play.matches_pure status

/-- The question whether a limit is used up matches itself. -/
theorem spent_matches (id : NodeId) (kind : DecoratorKind) :
    (spent id kind : Play G Bool).Matches (spent id kind) := by
  cases kind with
  | limit bound => exact Play.matches_look fun h => by rw [h.exec_count_of_eq]
  | _ => exact Play.matches_pure false

/-- The count of a limit matches itself. -/
theorem count_child_matches (id : NodeId) (kind : DecoratorKind) :
    (countChild id kind : Play G Unit).Matches (countChild id kind) := by
  cases kind with
  | limit bound =>
      refine Play.matches_change fun htwins => ?_
      rw [htwins.exec_count_of_eq]
      exact htwins.remember .execCount (by simp) id.raw _
  | _ => exact Play.matches_pure ()

/-- The answer to the result of a child matches the one of the relaxed node. -/
theorem answer_child_matches (node : Node G) (kind : DecoratorKind) (result : Option Status) :
    (node.answerChild kind result).Matches (node.relaxed.answerChild kind result) := by
  cases result with
  | none => exact (Play.matches_report _ _).bind fun _ => Play.matches_pure Status.failed
  | some status =>
      unfold answerChild
      rw [id_relaxed]
      exact (count_child_matches node.id kind).bind fun _ => Play.matches_pure _

/-- The logic of a timed leaf matches itself. -/
theorem run_timed_matches (id : NodeId) (duration : Nat) :
    (runTimed id duration elapsed : Play G Status).Matches (runTimed id duration elapsed) := by
  refine (Play.matches_look fun h => by rw [h.timer_of_eq]).bind fun timer => ?_
  exact (Play.matches_change fun htwins =>
    htwins.remember .timer (by simp) id.raw timer).bind fun _ => Play.matches_pure _

/-- The logic of a node matches that of the relaxed node. -/
theorem logic_matches (hrules : rules.Modest) (hblind : rules.Blind) {node : Node G}
    (h : ∀ child ∈ node.children,
      (child.execute rules kept elapsed).Matches (child.relaxed.execute rules kept' elapsed)) :
    (node.logic rules kept elapsed).Matches (node.relaxed.logic rules kept' elapsed) := by
  cases node with
  | composite head kind children =>
      rw [relaxed_composite, logic, logic]
      cases kind.advance? with
      | some advance =>
          exact (Play.matches_look fun h => h.resume_index_of_eq head.id).bind fun start =>
            (walk_matches advance h start 0).bind fun stop =>
              settle_walk_matches head.id advance stop
      | none => exact (execute_all_matches h).bind fun running => Play.matches_pure _
  | decorator head kind child =>
      rw [relaxed_decorator, logic, logic, run_decorator_eq, run_decorator_eq]
      refine (spent_matches head.id kind).bind fun isSpent => Play.Matches.ite ?_ ?_
      · exact Play.matches_pure Status.finished
      · refine (execute_child_matches fun node hnode => h node (Option.mem_toList.2 hnode)).bind
          fun result => ?_
        rw [← relaxed_decorator]
        exact answer_child_matches _ kind result
  | timed head duration mustComplete =>
      exact (run_timed_matches head.id duration).bind fun status =>
        (Play.matches_note _).bind fun _ => Play.matches_pure status
  | action head name mustComplete leaf =>
      have hstay := hrules.act leaf head.id elapsed
      exact ((hblind.act leaf head.id elapsed).matches hstay hstay).bind fun status =>
        (Play.matches_note _).bind fun _ => Play.matches_pure status

/-- From twins the execution of a tree matches that of the relaxed tree. -/
theorem execute_matches (hrules : rules.Modest) (hblind : rules.Blind)
    (kept kept' : NodeId → Bool) (elapsed : Nat) (node : Node G) :
    (node.execute rules kept elapsed).Matches (node.relaxed.execute rules kept' elapsed) := by
  induction node using by_family with
  | inner node hinner ih =>
      rw [execute_inner hinner, execute_inner ((family_relaxed node).symm ▸ hinner)]
      exact node.visit_matches hrules hblind (logic_matches hrules hblind ih)
        fun _ => Play.matches_pure ()
  | leaf node hleaf =>
      intro first second htwins
      have hnone : second.waiting? node.relaxed.id = none := htwins.noneWaiting.2 _
      rw [execute_leaf hleaf, execute_leaf ((family_relaxed node).trans hleaf),
        htwins.noneWaiting.1, hnone]
      refine node.visit_matches hrules hblind (logic_matches hrules hblind ?_) ?_ _ _ htwins
      · rw [children_leaf hleaf]
        exact fun child hchild => nomatch hchild
      · intro status
        refine Play.matches_change fun {one other} htwins => ?_
        exact htwins.of_hides (one.hides_follow kept node status)
          (other.hides_follow kept' node.relaxed status)
          (fun id => (one.waiting?_follow kept node status id).trans (htwins.noneWaiting.1 id))
          fun id =>
            (other.waiting?_follow kept' node.relaxed status id).trans (htwins.noneWaiting.2 id)

end Node

end BehaviorTree
