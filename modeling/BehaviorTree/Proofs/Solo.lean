import BehaviorTree.Proofs.Accord
import BehaviorTree.Proofs.Recording
import BehaviorTree.Proofs.Zones
import BehaviorTree.Simulation.Run

/-!
# Agents on their own

`Agent.solo` is an agent after a number of updates with nothing else in use. If the game is modest,
these updates touch no more than what they are for: an agent that is not paused counts them all, and
one that is paused stays as it is (`Agent.solo_counted`, `Agent.solo_of_paused`).

Neither the zone of an agent nor its recording has an influence on what it does: agents that differ
in nothing else still differ in nothing else afterwards (`Agent.Shadows.solo`), provided that the
game does not look there. The demonstration parts do not; they are as harmless as all the notions of
harmlessness in these proofs ask.
-/

namespace BehaviorTree

variable {G : Game}

/-! ## Demonstration parts -/

namespace Demo

/-- Leaves do no more than report, so they take every passage that is open to reports. -/
theorem act_keeps (passage : Passage game)
    (hreport : ∀ agent diagnostic, passage.allows agent [.reported diagnostic] agent)
    (node : NodeId) (leaf : Leaf) : (act (G := game) node leaf).Keeps passage := by
  cases leaf with
  | log message =>
      exact (Play.keeps_look _).bind fun agent =>
        (Play.keeps_note fun other => hreport other _).bind fun _ => Play.keeps_pure Status.finished
  | idle => exact Play.keeps_pure Status.running

/-- Filters do no more than select. -/
theorem sift_keeps (passage : Passage game)
    (hselect : ∀ agent change, passage.allows agent [] (agent.select change)) :
    ∀ sieve, (sift (G := game) sieve).Keeps passage
  | .select _ => Play.keeps_change fun agent => hselect agent _

/-- The demonstration parts touch only what is their own. -/
theorem rules_modest : rules.Modest where
  enter _ _ agent := ⟨.refl agent, by simp [rules]⟩
  act leaf node _ agent := by
    cases leaf with
    | log message =>
        refine ⟨.refl agent, ?_⟩
        simp [rules, act, Note.IsReport]
    | idle => exact ⟨.refl agent, by simp [rules, act]⟩
  test := nofun
  sift sieve agent := by
    cases sieve with
    | select entities => exact ⟨agent.touches_select fun _ => entities, by simp [rules, sift]⟩

/-- The demonstration parts leave entities alone and have no agent hold an action. -/
theorem rules_steady : rules.Steady where
  enter _ _ := Play.keeps_pure ()
  act leaf node _ := act_keeps .steady (fun _ _ => ⟨rfl, fun _ h => h⟩) node leaf
  test _ := nomatch ‹Empty›
  sift := sift_keeps .steady fun _ _ => ⟨rfl, fun _ h => h⟩

/-- The demonstration parts are discreet, whatever the trees. -/
theorem rules_discreet (forest : List (Tree game)) : rules.Discreet forest where
  enter _ _ := Play.keeps_pure ()
  act leaf node _ := act_keeps (.discreet forest) (fun agent _ => .of_game (.refl agent)) node leaf
  test _ := nomatch ‹Empty›
  sift := sift_keeps (.discreet forest) fun agent change => .of_game (agent.touches_select change)

/-- The demonstration parts record nothing. -/
theorem rules_unrecorded : rules.Unrecorded where
  enter _ _ := Play.keeps_pure ()
  act leaf node _ := act_keeps .unrecorded (fun _ _ => ⟨rfl, rfl, fun _ => rfl, rfl⟩) node leaf
  test _ := nomatch ‹Empty›
  sift := sift_keeps .unrecorded .select

end Demo

/-! ## Agents that differ in zone and recording -/

namespace Agent

/-- Another agent differs from one that runs a tree in no more than its zone and, unless that is to
be `shown`, its recording. -/
inductive Shadows (shown : Bool) (tree : Tree G) (one : Agent G) : Agent G → Prop where
  | intro (zone : Option ZoneId) (trace : Option TraceLog)
      (htrace : shown = true → trace = one.trace) (hbehavior : one.behavior = some tree) :
      Shadows shown tree one { one with zone, trace }

namespace Shadows

variable {shown : Bool} {tree : Tree G} {one other : Agent G}

/-- What is done to an agent regardless of its zone and its recording is done alike. -/
theorem change (h : Shadows shown tree one other) (step : Agent G → Agent G)
    (hblind : ∀ zone trace, step { one with zone, trace } = { step one with zone, trace })
    (htrace : (step one).trace = one.trace) (hbehavior : (step one).behavior = one.behavior) :
    Shadows shown tree (step one) (step other) := by
  obtain ⟨zone, trace, hshown, hattached⟩ := h
  rw [hblind zone trace]
  exact .intro zone trace (fun h => (hshown h).trans htrace.symm) (hbehavior.trans hattached)

/-- Agents that remember the same differ in no more than before. -/
theorem remember (h : Shadows shown tree one other) (slot : Slot G) (key : Nat)
    (value : slot.Value) :
    Shadows shown tree (one.remember slot key value) (other.remember slot key value) :=
  h.change (·.remember slot key value) (fun _ _ => rfl) rfl rfl

/-- Agents that forget the same differ in no more than before. -/
theorem forget (h : Shadows shown tree one other) (slot : Slot G) (key : Nat) :
    Shadows shown tree (one.forget slot key) (other.forget slot key) :=
  h.change (·.forget slot key) (fun _ _ => rfl) rfl rfl

/-- Agents that differ in zone and recording hold the same action. -/
theorem held_action?_eq (h : Shadows shown tree one other) :
    other.heldAction? = one.heldAction? := by
  obtain ⟨zone, trace, -, -⟩ := h
  rfl

/-- Agents that differ in zone and recording keep the same nodes in use. -/
theorem alive_eq (h : Shadows shown tree one other) (kept : NodeId → Bool) (id : NodeId) :
    other.alive kept id = one.alive kept id := by
  obtain ⟨zone, trace, -, -⟩ := h
  rfl

/-- Agents that differ in zone and recording have the same entity. -/
theorem entity_eq (h : Shadows shown tree one other) : other.entity = one.entity := by
  obtain ⟨zone, trace, -, -⟩ := h
  rfl

/-- Agents that release an action differ in no more than before. -/
theorem release (h : Shadows shown tree one other) (id : NodeId) :
    Shadows shown tree (one.release id) (other.release id) := by
  unfold Agent.release
  rw [h.held_action?_eq, h.entity_eq]
  split
  · split
    · exact h.forget _ _
    · exact h
  · exact h

/-- Agents that follow up a leaf differ in no more than before. -/
theorem follow (h : Shadows shown tree one other) (kept : NodeId → Bool) (action : Node G)
    (status : Status) :
    Shadows shown tree (one.follow kept action status) (other.follow kept action status) := by
  cases status with
  | running =>
      show Shadows shown tree (one.hold kept action) (other.hold kept action)
      unfold hold
      rw [h.held_action?_eq, h.entity_eq]
      split
      · rw [h.alive_eq]
        split
        · exact h
        · exact h.remember _ _ _
      · exact h.remember _ _ _
  | finished | failed => exact h.release action.id
  | unknown | canNotExecute => exact h

/-- The engine reads neither the zone of an agent nor its recording. -/
theorem concord (id : NodeId) : Concord (Shadows shown tree) id where
  entity := entity_eq
  selection := by
    rintro one _ ⟨zone, trace, -, -⟩
    rfl
  entry := by
    rintro one _ ⟨zone, trace, -, -⟩ slot _
    rfl
  select h change := h.change (·.select change) (fun _ _ => rfl) rfl rfl
  remember h slot _ value := h.remember slot id.raw value
  forget h slot _ := h.forget slot id.raw
  record := by
    rintro one _ ⟨zone, trace, hshown, hattached⟩ status
    have hrecord : Shadows shown tree (one.record id status) { one.record id status with
        zone, trace := trace.map fun log => log.push ⟨one.ticks, id, status⟩ } :=
      .intro zone _ (fun h => by rw [hshown h]; rfl) hattached
    exact hrecord
  release h := h.release id

/-- Agents that differ in zone and recording are updated alike, if the game looks at neither. -/
theorem abreast {rules : Rules G} (hrules : ∀ node, rules.Accord (Shadows shown tree) node)
    (kept : NodeId → Bool) :
    Abreast (fun _ => True) (Shadows shown tree) rules kept kept tree tree := by
  have hattuned : ∀ (inUse : NodeId → Bool) (node : Node G),
      node.Attuned rules (Shadows shown tree) inUse inUse := fun inUse node =>
    { concord := concord node.id
      rules := hrules node
      follow := fun _ _ _ h status => h.follow inUse node status }
  exact
    { status := by
        rintro one _ ⟨zone, trace, -, -⟩
        rfl
      paused := by
        rintro one _ ⟨zone, trace, -, -⟩
        rfl
      attached := by
        rintro one _ ⟨zone, trace, -, hattached⟩
        exact hattached
      attached' := by
        rintro one _ ⟨zone, trace, -, hattached⟩
        exact hattached
      pressing := by
        rintro one _ ⟨zone, trace, -, -⟩
        rfl
      nextTick := fun h => h.change nextTick (fun _ _ => rfl) rfl rfl
      withStatus := fun h status => h.change (·.withStatus status) (fun _ _ => rfl) rfl rfl
      root := fun _ => Node.execute_accords fun other _ => hattuned _ other
      concord := fun _ action _ => concord action.id
      action := fun _ action _ _ => Node.execute_accords fun other _ => hattuned _ other }

end Shadows

end Agent

/-- The demonstration parts read neither the zone of an agent nor its recording. -/
theorem Demo.rules_accord (shown : Bool) (tree : Tree Demo.game) (node : Node Demo.game) :
    Demo.rules.Accord (Agent.Shadows shown tree) node where
  enter _ := Play.accords_pure ()
  act leaf _ := by
    cases leaf with
    | log message =>
        exact Play.accords_look_bind fun _ => (Play.accords_report _ _).bind fun _ =>
          Play.accords_pure Status.finished
    | idle => exact Play.accords_pure Status.running
  test _ := nomatch ‹Empty›
  sift _ sieve _ := by
    cases sieve with
    | select entities =>
        exact Play.accords_change fun h =>
          h.change (·.select fun _ => entities) (fun _ _ => rfl) rfl rfl

/-! ## Updates with nothing else in use -/

namespace Agent

variable {rules : Rules G}

/-- An agent after some updates with nothing else in use. -/
def solo (rules : Rules G) (elapsed times : Nat) (agent : Agent G) : Agent G :=
  (fun agent => (Agent.update rules (fun _ => false) elapsed agent).agent)^[times] agent

/-- No updates leave the agent as it is. -/
@[simp] theorem solo_zero (elapsed : Nat) (agent : Agent G) : agent.solo rules elapsed 0 = agent :=
  rfl

/-- The last of some updates comes after the others. -/
theorem solo_succ (elapsed times : Nat) (agent : Agent G) :
    agent.solo rules elapsed (times + 1) =
      (Agent.update rules (fun _ => false) elapsed (agent.solo rules elapsed times)).agent :=
  Function.iterate_succ_apply' _ times agent

/-- The turn of an agent is its update, which does nothing if it is paused. -/
theorem turn_eq_update (kept : NodeId → Bool) (elapsed : Nat) (agent : Agent G) :
    agent.turn rules kept elapsed = (Agent.update rules kept elapsed agent).agent := by
  unfold turn
  split
  · next hpaused => rw [update_idle (.inl hpaused)]
  · rfl

/-- A paused agent stays as it is. -/
theorem solo_of_paused (elapsed times : Nat) {agent : Agent G} (hpaused : agent.paused = true) :
    agent.solo rules elapsed times = agent :=
  Function.iterate_fixed (by rw [update_idle (.inl hpaused)]) times

/-- After the same updates agents differ in no more than before. -/
theorem Shadows.solo {shown : Bool} {tree : Tree G} {one other : Agent G}
    (hrules : ∀ node, rules.Accord (Shadows shown tree) node)
    (h : Shadows shown tree one other) (elapsed times : Nat) :
    Shadows shown tree (one.solo rules elapsed times) (other.solo rules elapsed times) := by
  induction times with
  | zero => exact h
  | succ times ih =>
      rw [solo_succ, solo_succ]
      exact (((abreast hrules _).update_accords elapsed).always _ _ ih).2.2

/-- What updates leave behind: unless the agent is paused, a tick is counted for each of them. -/
structure Counted (times : Nat) (before after : Agent G) : Prop where
  entity : after.entity = before.entity
  behavior : after.behavior = before.behavior
  ticks : after.ticks = before.ticks + if before.paused then 0 else times

/-- Updates of an agent with a tree are counted in its ticks, and leave its entity, tree and pause.
-/
theorem solo_counted (hrules : rules.Modest) (elapsed times : Nat) {agent : Agent G}
    {tree : Tree G} (hbehavior : agent.behavior = some tree) :
    agent.Counted times (agent.solo rules elapsed times) := by
  cases hpaused : agent.paused with
  | true =>
      rw [solo_of_paused elapsed times hpaused]
      exact ⟨rfl, rfl, by simp [hpaused]⟩
  | false =>
      -- No update pauses the agent, so the next one counts as well.
      suffices h : agent.Counted times (agent.solo rules elapsed times) ∧
          (agent.solo rules elapsed times).paused = false from h.1
      induction times with
      | zero => exact ⟨⟨rfl, rfl, by simp⟩, hpaused⟩
      | succ times ih =>
          obtain ⟨hcounted, hawake⟩ := ih
          have hstands := update_stands hrules (fun _ => false) elapsed hawake
            (hcounted.behavior.trans hbehavior)
          have hticks := hstands.ticks.trans (congrArg (· + 1) hcounted.ticks)
          rw [solo_succ]
          refine ⟨⟨hstands.entity.trans hcounted.entity, hstands.behavior.trans hcounted.behavior,
            ?_⟩, hstands.paused.trans hawake⟩
          simpa [hpaused, Nat.add_assoc] using hticks

/-- The recording of an agent that is traced goes on mirroring its last statuses. -/
theorem Transcribed.solo (hrules : rules.Unrecorded) (elapsed times : Nat) {agent : Agent G}
    {log : TraceLog} (h : agent.Transcribed log) :
    ∃ later, (agent.solo rules elapsed times).Transcribed later := by
  induction times with
  | zero => exact ⟨log, h⟩
  | succ times ih =>
      obtain ⟨later, hlater⟩ := ih
      obtain ⟨events, hafter, -⟩ := hlater.update hrules (fun _ => false) elapsed
      rw [solo_succ]
      exact ⟨_, hafter⟩

end Agent

end BehaviorTree
