import BehaviorTree.Agent.Basic
import BehaviorTree.Diagnostic

/-!
# Play

`Play G α` is something done with an agent: it gives a value and the agent afterwards, and
leaves notes of what happened on the way, oldest first. The notes keep the order of leaf
calls, condition evaluations and executions, whatever else the agent records.
-/

namespace BehaviorTree

variable {G : Game}

/-- Something worth noting while an agent is at work. -/
inductive Note where
  /-- A leaf was entered afresh. -/
  | entered (leaf : NodeId)
  /-- The logic of a leaf ran. -/
  | acted (leaf : NodeId) (status : Status)
  /-- A condition without nested conditions was evaluated for a node. -/
  | tested (node : NodeId) (condition : String) (holds : Bool)
  /-- The execution of a node came to an end. -/
  | executed (node : NodeId) (status : Status)
  /-- Something was reported to the developer. -/
  | reported (diagnostic : Diagnostic)
  deriving DecidableEq, Repr

/-- What was reported, in order. -/
def Note.diagnostics (notes : List Note) : List Diagnostic :=
  notes.filterMap fun
    | .reported diagnostic => some diagnostic
    | _ => none

/-- What comes of something done with an agent. -/
structure Outcome (G : Game) (α : Type) where
  value : α
  agent : Agent G
  notes : List Note

/-- Something done with an agent. -/
def Play (G : Game) (α : Type) : Type := Agent G → Outcome G α

namespace Play

variable {α β : Type}

/-- Gives a value and does nothing. -/
def done (value : α) : Play G α := fun agent => ⟨value, agent, []⟩

/-- Does one thing and then another that may depend on its value. -/
def andThen (first : Play G α) (next : α → Play G β) : Play G β := fun agent =>
  let one := first agent
  let two := next one.value one.agent
  ⟨two.value, two.agent, one.notes ++ two.notes⟩

instance : Monad (Play G) where
  pure := done
  bind := andThen

/-- Giving a value leaves the agent as it is, and no notes. -/
@[simp] theorem pure_apply (value : α) (agent : Agent G) :
    (pure value : Play G α) agent = ⟨value, agent, []⟩ := rfl

/-- The second thing is done with the agent that the first one leaves, and its notes come behind. -/
@[simp] theorem bind_apply (first : Play G α) (next : α → Play G β) (agent : Agent G) :
    (first >>= next) agent =
      ⟨(next (first agent).value (first agent).agent).value,
        (next (first agent).value (first agent).agent).agent,
        (first agent).notes ++ (next (first agent).value (first agent).agent).notes⟩ := rfl

/-- A function of the value changes neither the agent nor the notes. -/
@[simp] theorem map_apply (f : α → β) (play : Play G α) (agent : Agent G) :
    (f <$> play) agent = ⟨f (play agent).value, (play agent).agent, (play agent).notes⟩ := by
  change (⟨f (play agent).value, (play agent).agent, (play agent).notes ++ []⟩ : Outcome G β) = _
  rw [List.append_nil]

instance : LawfulMonad (Play G) := LawfulMonad.mk' (Play G)
  (by intro α play; funext agent; simp)
  (by intro α β value next; funext agent; simp)
  (by intro α β γ first next last; funext agent; simp [List.append_assoc])

/-- Looks at the agent. -/
def look (view : Agent G → α) : Play G α := fun agent => ⟨view agent, agent, []⟩

/-- Changes the agent. -/
def change (step : Agent G → Agent G) : Play G Unit := fun agent => ⟨(), step agent, []⟩

/-- Leaves a note. -/
def note (what : Note) : Play G Unit := fun agent => ⟨(), agent, [what]⟩

/-- Reports something to the developer. -/
def report (diagnostic : Diagnostic) : Play G Unit := note (.reported diagnostic)

/-- A look leaves the agent as it is, and no notes. -/
@[simp] theorem look_apply (view : Agent G → α) (agent : Agent G) :
    look view agent = ⟨view agent, agent, []⟩ := rfl

/-- A change gives nothing back and leaves no notes. -/
@[simp] theorem change_apply (step : Agent G → Agent G) (agent : Agent G) :
    change step agent = ⟨(), step agent, []⟩ := rfl

/-- A note is all that it leaves. -/
@[simp] theorem note_apply (what : Note) (agent : Agent G) :
    note what agent = ⟨(), agent, [what]⟩ := rfl

/-- A report is a note that carries it. -/
@[simp] theorem report_apply (diagnostic : Diagnostic) (agent : Agent G) :
    report diagnostic agent = ⟨(), agent, [.reported diagnostic]⟩ := rfl

end Play

/-- The meaning of a game's symbols. -/
structure Rules (G : Game) where
  /-- What a leaf does on a fresh entry, before its first run. -/
  enter : G.Leaf → NodeId → Play G Unit
  /-- What a leaf does on a tick that lasts some nanoseconds, and how it comes out. -/
  act : G.Leaf → NodeId → Nat → Play G Status
  /-- Whether a condition of the game holds for the node that it gates. -/
  test : G.Test → Node G → Play G Bool
  /-- What a filter of the game does. -/
  sift : G.Sieve → Play G Unit

end BehaviorTree
