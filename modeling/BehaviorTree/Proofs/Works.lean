import BehaviorTree.Proofs.Visits

/-!
# The work of a node

What a node does besides executing children is the game's, the engine's or the settling of its
result. `Rules.Keep` says of the game's part that it takes a passage, `Passage.Works` says so of
the engine's, and `Passage.Works.suits` puts the three together for `Manner.execute`.
-/

namespace BehaviorTree

variable {G : Game}

/-- The leaves, conditions and filters of a node take a passage. -/
structure Rules.Keep (rules : Rules G) (passage : Passage G) (node : Node G) : Prop where
  enter : ∀ leaf, (rules.enter leaf node.id).Keeps passage
  act : ∀ leaf elapsed, (rules.act leaf node.id elapsed).Keeps passage
  test : ∀ test, (rules.test test node).Keeps passage
  sift : ∀ name sieve, .game name sieve ∈ node.filters → (rules.sift sieve).Keeps passage

/-- The same game takes a wider passage. -/
theorem Rules.Keep.mono {rules : Rules G} {small large : Passage G} {node : Node G}
    (h : rules.Keep small node)
    (hle : ∀ {before after : Agent G} {notes : List Note},
      small.allows before notes after → large.allows before notes after) :
    rules.Keep large node where
  enter leaf agent := hle (h.enter leaf agent)
  act leaf elapsed agent := hle (h.act leaf elapsed agent)
  test test agent := hle (h.test test agent)
  sift name sieve hsieve agent := hle (h.sift name sieve hsieve agent)

/-- A passage that is open to what the engine itself does while a gate is asked: it takes notes and
narrows the selection. -/
structure Passage.Questions (passage : Passage G) : Prop where
  note : ∀ (agent : Agent G) what, Note.execution? what = none →
    passage.allows agent [what] agent
  select : ∀ (agent : Agent G) change, passage.allows agent [] (agent.select change)

/-- A passage that the engine takes with all its steps at a node but the settling of results. -/
structure Passage.Works (passage : Passage G) (kept : NodeId → Bool) (node : Node G) : Prop
    extends passage.Questions where
  remember : ∀ (agent : Agent G) (slot : Slot G) (value : slot.Value), slot.IsOpen →
    slot ≠ .status → passage.allows agent [] (agent.remember slot node.id.raw value)
  forget : ∀ (agent : Agent G) (slot : Slot G), slot ≠ .status → slot ≠ .currentAction →
    passage.allows agent [] (agent.forget slot node.id.raw)
  follow : ∀ (agent : Agent G) status, passage.allows agent [] (agent.follow kept node status)
  release : ∀ agent : Agent G, passage.allows agent [] (agent.release node.id)

variable {rules : Rules G} {kept : NodeId → Bool} {elapsed : Nat} {passage : Passage G}
  {node : Node G}

namespace Passage.Questions

/-- A note that tells of no execution keeps to a passage that is open to questions. -/
theorem keeps_note (h : passage.Questions) {what : Note} (hwhat : what.execution? = none) :
    (Play.note what).Keeps passage :=
  Play.keeps_note fun agent => h.note agent what hwhat

/-- A filter keeps to a passage that is open to questions if the game's own filters do. -/
theorem filter (h : passage.Questions) {filter : Filter G}
    (hsift : ∀ name sieve, filter = .game name sieve → (rules.sift sieve).Keeps passage) :
    (filter.run rules).Keeps passage := by
  cases filter with
  | clear => exact Play.keeps_change fun agent => h.select agent fun _ => []
  | unique => exact Play.keeps_change fun agent => h.select agent Selection.unique
  | first count => exact Play.keeps_change fun agent => h.select agent (List.take count)
  | exclude =>
      exact Play.keeps_change fun agent => h.select agent (Selection.exclude agent.entity)
  | game name sieve => exact hsift name sieve rfl

/-- A gate keeps to a passage that is open to questions if the game does. -/
theorem gate (h : passage.Questions) (hrules : rules.Keep passage node) :
    (node.open rules).Keeps passage := by
  refine passage.manner.open_gate ⟨hrules.test, Play.keeps_look _, ?_, ?_⟩ fun filter hfilter => ?_
  · exact fun _ _ => h.keeps_note rfl
  · exact fun _ => h.keeps_note rfl
  · exact h.filter fun name sieve heq => hrules.sift name sieve (heq ▸ hfilter)

end Passage.Questions

namespace Passage.Works

/-- To remember something at the node keeps to a passage that the engine takes there. -/
theorem keeps_remember (h : passage.Works kept node) (slot : Slot G) (hopen : slot.IsOpen)
    (hslot : slot ≠ .status) (value : Agent G → slot.Value) :
    (Play.change fun agent => agent.remember slot node.id.raw (value agent)).Keeps passage :=
  Play.keeps_change fun agent => h.remember agent slot (value agent) hopen hslot

/-- The entry into a node keeps to a passage that the engine and the game take there. -/
theorem entry (h : passage.Works kept node) (hrules : rules.Keep passage node) :
    (node.entry rules).Keeps passage := by
  cases node with
  | composite head kind children =>
      cases kind with
      | sequence | priority =>
          exact h.keeps_remember .resumeIndex trivial (by simp) fun _ => (0 : Nat)
      | parallel => exact Play.keeps_pure ()
  | decorator head kind child => exact Play.keeps_pure ()
  | timed head duration mustComplete =>
      exact (h.keeps_remember .timer trivial (by simp) fun _ => Timer.unarmed).bind
        fun _ => h.keeps_note rfl
  | action head name mustComplete leaf =>
      exact (hrules.enter leaf).bind fun _ => h.keeps_note rfl

/-- What the engine does at a node above others keeps to a passage that it takes there. -/
theorem tends (h : passage.Works kept node) : passage.manner.Tends node := by
  refine ⟨Play.keeps_look _, fun exhausted stop => ?_, Node.spent_keeps, fun kind result => ?_⟩
  · rcases stop with _ | ⟨index, status⟩
    · exact (Play.keeps_change fun agent =>
        h.forget agent .resumeIndex (by simp) (by simp)).bind fun _ => Play.keeps_pure exhausted
    · exact (h.keeps_remember .resumeIndex trivial (by simp) fun _ => index).bind
        fun _ => Play.keeps_pure status
  · cases result with
    | none => exact (h.keeps_note rfl).bind fun _ => Play.keeps_pure _
    | some status =>
        refine Play.Keeps.bind ?_ fun _ => Play.keeps_pure _
        cases kind with
        | limit bound => exact h.keeps_remember .execCount trivial (by simp) _
        | inverter | succeed | fail | repeater | untilFail | untilSuccess | root =>
            exact Play.keeps_pure ()

/-- The logic of a leaf keeps to a passage that the engine and the game take there. -/
theorem leaf_logic (h : passage.Works kept node) (hrules : rules.Keep passage node)
    (hleaf : node.family = .action) : (node.logic rules kept elapsed).Keeps passage := by
  have hacted : ∀ status : Status, (do
      Play.note (.acted node.id status)
      return status : Play G Status).Keeps passage := fun status =>
    (h.keeps_note rfl).bind fun _ => Play.keeps_pure status
  cases node with
  | composite | decorator => simp [Node.family] at hleaf
  | timed head duration mustComplete =>
      have hrun : (Node.runTimed head.id duration elapsed : Play G Status).Keeps passage :=
        (Play.keeps_look _).bind fun timer =>
          (h.keeps_remember .timer trivial (by simp) fun _ => timer).bind
            fun _ => Play.keeps_pure _
      exact hrun.bind hacted
  | action head name mustComplete leaf => exact (hrules.act leaf elapsed).bind hacted

/-- All that a leaf does keeps to a passage that the engine and the game take there. -/
theorem acts (h : passage.Works kept node) (hrules : rules.Keep passage node) (elapsed : Nat)
    (hleaf : node.family = .action) : passage.manner.Acts rules kept elapsed node where
  waiting := Play.keeps_look _
  claim := Play.keeps_change fun agent => h.forget agent .completed (by simp) (by simp)
  logic := h.leaf_logic hrules hleaf
  follow status := Play.keeps_change fun agent => h.follow agent status
  release := Play.keeps_change h.release

/-- A passage of the engine's steps, settling included, is a manner that suits a node whose game
takes it as well. -/
theorem suits (h : passage.Works kept node) (hrules : rules.Keep passage node)
    (hsettle : ∀ agent status,
      passage.allows agent [.executed node.id status] (agent.settle node.id status)) :
    passage.manner.Suits rules kept elapsed node where
  last := Play.keeps_look _
  entry := h.entry hrules
  gate := h.gate hrules
  conclude status agent := by simpa [Node.conclude] using hsettle agent status
  inner _ := h.tends
  leaf hleaf := h.acts hrules elapsed hleaf

end Passage.Works

end BehaviorTree
