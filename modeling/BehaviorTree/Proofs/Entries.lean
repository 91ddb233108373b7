import BehaviorTree.Proofs.Passage

/-!
# Views of an agent

What the engine's own small operations do to the views of an agent: to the status, position,
count and countdown of a node, to the action that is held and to waiting results. Nothing
after this module unfolds `Agent.settle`, `Agent.hold` or `Agent.release`.
-/

namespace BehaviorTree

variable {G : Game}

namespace NodeId

/-- Identities are the same if their numbers are. -/
theorem raw_inj {one other : NodeId} : one.raw = other.raw ↔ one = other := by
  cases one
  cases other
  simp

end NodeId

namespace Agent

/-- The result that waits for an action. -/
def waiting? (agent : Agent G) (id : NodeId) : Option Status :=
  agent.context.get? .completed id.raw

/-- The status that is stored for a node. -/
def status? (agent : Agent G) (id : NodeId) : Option Status :=
  agent.context.get? .status id.raw

/-- A node without a stored status has an unknown one. -/
theorem status_of_eq (agent : Agent G) (id : NodeId) :
    agent.statusOf id = (agent.status? id).getD .unknown := rfl

/-- A known status is stored. -/
theorem status?_eq_some {agent : Agent G} {id : NodeId} {status : Status}
    (h : agent.statusOf id = status) (hknown : status ≠ .unknown) :
    agent.status? id = some status := by
  rw [status_of_eq] at h
  cases hstored : agent.status? id with
  | none =>
      rw [hstored] at h
      exact absurd h.symm hknown
  | some stored =>
      rw [hstored] at h
      exact congrArg some h

/-- The position that is stored for a sequence or priority. -/
def position? (agent : Agent G) (id : NodeId) : Option Nat :=
  agent.context.get? .resumeIndex id.raw

/-- A node without a stored position starts with its first child. -/
theorem resume_index_of_eq (agent : Agent G) (id : NodeId) :
    agent.resumeIndexOf id = (agent.position? id).getD 0 := rfl

/-- No result waits for any action. -/
def NoneWaiting (agent : Agent G) : Prop := ∀ id, agent.waiting? id = none

/-- A waiting result is taken once: it is given back and forgotten. -/
theorem take_completed_eq (agent : Agent G) (id : NodeId) :
    agent.takeCompleted id =
      (agent.waiting? id).map fun status => (status, agent.forget .completed id.raw) := rfl

/-! ## Spared entries -/

namespace Spares

variable {region : Region G} {before after : Agent G}

/-- A status that is spared stays the same. -/
theorem status_of_eq (h : before.Spares region after) {id : NodeId}
    (hid : ¬ region .status id.raw) : after.statusOf id = before.statusOf id :=
  congrArg (Option.getD · Status.unknown) (h .status id.raw hid)

/-- A stored position that is spared stays the same. -/
theorem position?_eq (h : before.Spares region after) {id : NodeId}
    (hid : ¬ region .resumeIndex id.raw) : after.position? id = before.position? id :=
  h .resumeIndex id.raw hid

/-- A position that is spared stays the same. -/
theorem resume_index_of_eq (h : before.Spares region after) {id : NodeId}
    (hid : ¬ region .resumeIndex id.raw) : after.resumeIndexOf id = before.resumeIndexOf id :=
  congrArg (Option.getD · 0) (h.position?_eq hid)

/-- A count that is spared stays the same. -/
theorem exec_count_of_eq (h : before.Spares region after) {id : NodeId}
    (hid : ¬ region .execCount id.raw) : after.execCountOf id = before.execCountOf id :=
  congrArg (Option.getD · (0 : Nat)) (h .execCount id.raw hid)

/-- A countdown that is spared stays the same. -/
theorem timer_of_eq (h : before.Spares region after) {id : NodeId}
    (hid : ¬ region .timer id.raw) : after.timerOf id = before.timerOf id :=
  congrArg (Option.getD · Timer.unarmed) (h .timer id.raw hid)

/-- A waiting result that is spared stays the same. -/
theorem waiting?_eq (h : before.Spares region after) {id : NodeId}
    (hid : ¬ region .completed id.raw) : after.waiting? id = before.waiting? id :=
  h .completed id.raw hid

/-- The held action stays the same if it is spared and the agent keeps its entity. -/
theorem held_action?_eq (h : before.Spares region after) (hentity : after.entity = before.entity)
    (hheld : ¬ region .currentAction before.entity) :
    after.heldAction? = before.heldAction? := by
  rw [heldAction?, hentity]
  exact h .currentAction before.entity hheld

end Spares

namespace Touches

variable {before after : Agent G}

/-- A leaf does not touch the held action. -/
theorem held_action?_eq {id : NodeId} (h : before.Touches (.ofLeaf id) after) :
    after.heldAction? = before.heldAction? :=
  h.spares.held_action?_eq h.stands.entity (by simp [Region.ofLeaf, Slot.IsGame, Slot.IsOpen])

/-- A leaf does not touch waiting results. -/
theorem waiting?_eq {id : NodeId} (h : before.Touches (.ofLeaf id) after) (other : NodeId) :
    after.waiting? other = before.waiting? other :=
  h.spares.waiting?_eq (by simp [Region.ofLeaf, Slot.IsGame, Slot.IsOpen])

/-- A leaf does not touch the status of any other node. -/
theorem status_of_eq {id other : NodeId} (h : before.Touches (.ofLeaf id) after)
    (hne : other ≠ id) : after.statusOf other = before.statusOf other :=
  h.spares.status_of_eq
    (by simpa [Region.ofLeaf, Slot.IsGame, Slot.IsOpen, NodeId.raw_inj] using hne)

end Touches

/-! ## Settling a result -/

/-- To settle a result touches nothing but the status of the node. -/
theorem spares_settle (agent : Agent G) (region : Region G) {id : NodeId} (status : Status)
    (h : region .status id.raw) : agent.Spares region (agent.settle id status) :=
  agent.spares_remember region .status status h

/-- To settle a result leaves an agent standing as it did. -/
theorem stands_settle (agent : Agent G) (id : NodeId) (status : Status) :
    agent.Stands (agent.settle id status) := ⟨rfl, rfl, rfl, rfl, rfl, rfl⟩

/-- The status that is settled is stored. -/
@[simp] theorem status?_settle_self (agent : Agent G) (id : NodeId) (status : Status) :
    (agent.settle id status).status? id = some status :=
  agent.context.get?_set_self (Slot.status : Slot G) id.raw status

/-- The status that is settled is the node's from then on. -/
@[simp] theorem status_of_settle_self (agent : Agent G) (id : NodeId) (status : Status) :
    (agent.settle id status).statusOf id = status :=
  congrArg (Option.getD · Status.unknown) (agent.status?_settle_self id status)

/-- To settle a result leaves the status of every other node alone. -/
theorem status_of_settle_of_ne (agent : Agent G) {id other : NodeId} (status : Status)
    (h : other ≠ id) : (agent.settle id status).statusOf other = agent.statusOf other :=
  (agent.spares_settle (fun slot key => slot = .status ∧ key = id.raw) status
    ⟨rfl, rfl⟩).status_of_eq (by simpa [NodeId.raw_inj] using h)

/-- To settle a result leaves all positions alone. -/
@[simp] theorem position?_settle (agent : Agent G) (id other : NodeId) (status : Status) :
    (agent.settle id status).position? other = agent.position? other :=
  (agent.spares_settle (fun slot _ => slot = .status) status rfl).position?_eq (by simp)

/-- To settle a result leaves all counts alone. -/
@[simp] theorem exec_count_of_settle (agent : Agent G) (id other : NodeId) (status : Status) :
    (agent.settle id status).execCountOf other = agent.execCountOf other :=
  (agent.spares_settle (fun slot _ => slot = .status) status rfl).exec_count_of_eq (by simp)

/-- To settle a result leaves all countdowns alone. -/
@[simp] theorem timer_of_settle (agent : Agent G) (id other : NodeId) (status : Status) :
    (agent.settle id status).timerOf other = agent.timerOf other :=
  (agent.spares_settle (fun slot _ => slot = .status) status rfl).timer_of_eq (by simp)

/-- To settle a result leaves the held action alone. -/
@[simp] theorem held_action?_settle (agent : Agent G) (id : NodeId) (status : Status) :
    (agent.settle id status).heldAction? = agent.heldAction? :=
  (agent.spares_settle (fun slot _ => slot = .status) status rfl).held_action?_eq rfl
    (by simp)

/-- To settle a result leaves all waiting results alone. -/
@[simp] theorem waiting?_settle (agent : Agent G) (id other : NodeId) (status : Status) :
    (agent.settle id status).waiting? other = agent.waiting? other :=
  (agent.spares_settle (fun slot _ => slot = .status) status rfl).waiting?_eq (by simp)

/-! ## Positions, counts and countdowns -/

/-- A position that is remembered is stored. -/
@[simp] theorem position?_remember (agent : Agent G) (id : NodeId) (index : Nat) :
    (agent.remember .resumeIndex id.raw index).position? id = some index :=
  agent.context.get?_set_self (Slot.resumeIndex : Slot G) id.raw index

/-- A count that is remembered is the node's from then on. -/
@[simp] theorem exec_count_of_remember (agent : Agent G) (id : NodeId) (times : Nat) :
    (agent.remember .execCount id.raw times).execCountOf id = times :=
  congrArg (Option.getD · (0 : Nat))
    (agent.context.get?_set_self (Slot.execCount : Slot G) id.raw times)

/-- A countdown that is remembered is the node's from then on. -/
@[simp] theorem timer_of_remember (agent : Agent G) (id : NodeId) (timer : Timer) :
    (agent.remember .timer id.raw timer).timerOf id = timer :=
  congrArg (Option.getD · Timer.unarmed)
    (agent.context.get?_set_self (Slot.timer : Slot G) id.raw timer)

/-- To remember something else leaves all statuses alone. -/
theorem status_of_remember_of_slot_ne (agent : Agent G) (slot : Slot G) (key : Nat)
    (value : slot.Value) (h : slot ≠ .status) (id : NodeId) :
    (agent.remember slot key value).statusOf id = agent.statusOf id :=
  (agent.spares_remember (fun other _ => other = slot) slot value rfl).status_of_eq
    fun heq => h heq.symm

/-- To forget something else leaves all statuses alone. -/
theorem status_of_forget_of_slot_ne (agent : Agent G) {slot : Slot G} (key : Nat)
    (h : slot ≠ .status) (id : NodeId) :
    (agent.forget slot key).statusOf id = agent.statusOf id :=
  (agent.spares_forget (fun other _ => other = slot) rfl).status_of_eq
    fun heq => h heq.symm

/-! ## Waiting results -/

/-- A result that is forgotten waits no more. -/
@[simp] theorem waiting?_forget_self (agent : Agent G) (id : NodeId) :
    (agent.forget .completed id.raw).waiting? id = none :=
  agent.context.get?_remove_self .completed id.raw

/-- To forget one result leaves all others waiting. -/
theorem waiting?_forget_of_ne (agent : Agent G) {id other : NodeId} (h : other ≠ id) :
    (agent.forget .completed id.raw).waiting? other = agent.waiting? other :=
  agent.get?_forget_of_ne (by simpa [NodeId.raw_inj] using h)

/-- The agent with a result that waits for an action. -/
def withWaiting (agent : Agent G) (id : NodeId) (status : Status) : Agent G :=
  agent.remember .completed id.raw status

/-- A result that begins to wait touches nothing else. -/
theorem spares_with_waiting (agent : Agent G) (region : Region G) {id : NodeId} (status : Status)
    (h : region .completed id.raw) : agent.Spares region (agent.withWaiting id status) :=
  agent.spares_remember region .completed status h

/-- A result that is made to wait does. -/
@[simp] theorem waiting?_with_waiting_self (agent : Agent G) (id : NodeId) (status : Status) :
    (agent.withWaiting id status).waiting? id = some status :=
  agent.context.get?_set_self .completed id.raw status

/-- A result that begins to wait leaves those of other actions alone. -/
theorem waiting?_with_waiting_of_ne (agent : Agent G) {id other : NodeId} (status : Status)
    (h : other ≠ id) : (agent.withWaiting id status).waiting? other = agent.waiting? other :=
  agent.get?_remember_of_ne .completed status (by simpa [NodeId.raw_inj] using h)

/-- A result that begins to wait leaves all statuses alone. -/
@[simp] theorem status_of_with_waiting (agent : Agent G) (id other : NodeId) (status : Status) :
    (agent.withWaiting id status).statusOf other = agent.statusOf other :=
  agent.status_of_remember_of_slot_ne .completed id.raw _ (by simp) other

/-- A result that begins to wait leaves the held action alone. -/
@[simp] theorem held_action?_with_waiting (agent : Agent G) (id : NodeId) (status : Status) :
    (agent.withWaiting id status).heldAction? = agent.heldAction? :=
  agent.get?_remember_of_ne .completed status (by simp)

/-- A result that is forgotten leaves the held action alone. -/
@[simp] theorem held_action?_forget_completed (agent : Agent G) (id : NodeId) :
    (agent.forget .completed id.raw).heldAction? = agent.heldAction? :=
  agent.get?_forget_of_ne (by simp)

/-! ## The action that is held -/

/-- To release an action touches nothing but the current action. -/
theorem spares_release (agent : Agent G) (region : Region G) (id : NodeId)
    (h : region .currentAction agent.entity) : agent.Spares region (agent.release id) := by
  unfold release
  split
  · split
    · exact agent.spares_forget region h
    · exact .refl agent
  · exact .refl agent

/-- To release an action leaves an agent standing as it did. -/
theorem stands_release (agent : Agent G) (id : NodeId) : agent.Stands (agent.release id) := by
  unfold release
  split
  · split <;> exact ⟨rfl, rfl, rfl, rfl, rfl, rfl⟩
  · exact .refl agent

/-- A released action is not held, and another one stays so. -/
theorem held_action?_release (agent : Agent G) (id : NodeId) :
    (agent.release id).heldAction? = agent.heldAction?.filter fun held => held.id ≠ id := by
  unfold release
  cases hheld : agent.heldAction? with
  | none => simp [hheld]
  | some held =>
      by_cases hid : held.id = id
      · simp only [hid, ↓reduceIte, Option.filter_some, ne_eq, not_true_eq_false, decide_false,
          Bool.false_eq_true]
        exact agent.context.get?_remove_self .currentAction agent.entity
      · simp [hid, hheld, Option.filter]

/-- To hold an action touches nothing but the current action. -/
theorem spares_hold (kept : NodeId → Bool) (agent : Agent G) (region : Region G)
    (action : Node G) (h : region .currentAction agent.entity) :
    agent.Spares region (agent.hold kept action) := by
  unfold hold
  split
  · split
    · exact .refl agent
    · exact agent.spares_remember region .currentAction action h
  · exact agent.spares_remember region .currentAction action h

/-- To hold an action leaves an agent standing as it did. -/
theorem stands_hold (kept : NodeId → Bool) (agent : Agent G) (action : Node G) :
    agent.Stands (agent.hold kept action) := by
  unfold hold
  split
  · split <;> exact ⟨rfl, rfl, rfl, rfl, rfl, rfl⟩
  · exact ⟨rfl, rfl, rfl, rfl, rfl, rfl⟩

/-- Whether an action is kept in its place by another one that is held. -/
def Pinned (kept : NodeId → Bool) (agent : Agent G) (action held : Node G) : Prop :=
  agent.heldAction? = some held ∧ held.id ≠ action.id ∧ held.mustComplete ∧
    agent.alive kept held.id

/-- After an action is held it is the one, unless another live must-complete action was. -/
theorem held_action?_hold (kept : NodeId → Bool) (agent : Agent G) (action : Node G) :
    (agent.hold kept action).heldAction? = some action ∨
      ∃ held, agent.Pinned kept action held ∧ agent.hold kept action = agent := by
  have hremember : (agent.remember .currentAction agent.entity action).heldAction? = some action :=
    agent.context.get?_set_self .currentAction agent.entity action
  unfold hold
  cases hheld : agent.heldAction? with
  | none => exact .inl hremember
  | some held =>
      by_cases hpinned : held.id ≠ action.id ∧ held.mustComplete ∧ agent.alive kept held.id
      · exact .inr ⟨held, ⟨hheld, hpinned⟩, if_pos hpinned⟩
      · simp only [hpinned, ↓reduceIte]
        exact .inl hremember

/-- An action that is kept in its place changes nothing. -/
theorem Pinned.hold_eq {kept : NodeId → Bool} {agent : Agent G} {action held : Node G}
    (h : agent.Pinned kept action held) : agent.hold kept action = agent := by
  simp [hold, h.1, h.2]

/-- To follow up a leaf touches nothing but the current action. -/
theorem spares_follow (kept : NodeId → Bool) (agent : Agent G) (region : Region G)
    (action : Node G) (status : Status) (h : region .currentAction agent.entity) :
    agent.Spares region (agent.follow kept action status) := by
  cases status with
  | running => exact agent.spares_hold kept region action h
  | finished | failed => exact agent.spares_release region action.id h
  | unknown | canNotExecute => exact .refl agent

/-- To follow up a leaf leaves an agent standing as it did. -/
theorem stands_follow (kept : NodeId → Bool) (agent : Agent G) (action : Node G)
    (status : Status) : agent.Stands (agent.follow kept action status) := by
  cases status with
  | running => exact agent.stands_hold kept action
  | finished | failed => exact agent.stands_release action.id
  | unknown | canNotExecute => exact .refl agent

/-- To follow up a leaf leaves all waiting results alone. -/
theorem waiting?_follow (kept : NodeId → Bool) (agent : Agent G) (action : Node G)
    (status : Status) (id : NodeId) :
    (agent.follow kept action status).waiting? id = agent.waiting? id :=
  (agent.spares_follow kept (fun slot _ => slot = .currentAction) action status
    rfl).waiting?_eq (by simp)

/-- To follow up a leaf leaves all statuses alone. -/
theorem status_of_follow (kept : NodeId → Bool) (agent : Agent G) (action : Node G)
    (status : Status) (id : NodeId) :
    (agent.follow kept action status).statusOf id = agent.statusOf id :=
  (agent.spares_follow kept (fun slot _ => slot = .currentAction) action status
    rfl).status_of_eq (by simp)

/-- To follow up a leaf leaves all countdowns alone. -/
theorem timer_of_follow (kept : NodeId → Bool) (agent : Agent G) (action : Node G)
    (status : Status) (id : NodeId) :
    (agent.follow kept action status).timerOf id = agent.timerOf id :=
  (agent.spares_follow kept (fun slot _ => slot = .currentAction) action status
    rfl).timer_of_eq (by simp)

/-- To release an action leaves all waiting results alone. -/
theorem waiting?_release (agent : Agent G) (action id : NodeId) :
    (agent.release action).waiting? id = agent.waiting? id :=
  (agent.spares_release (fun slot _ => slot = .currentAction) action rfl).waiting?_eq (by simp)

/-- To release an action leaves all statuses alone. -/
theorem status_of_release (agent : Agent G) (action id : NodeId) :
    (agent.release action).statusOf id = agent.statusOf id :=
  (agent.spares_release (fun slot _ => slot = .currentAction) action rfl).status_of_eq (by simp)

end Agent

end BehaviorTree
