import BehaviorTree.Agent.Play

/-!
# Regions and passages

What an agent's doings may change. A `Region` is a set of context entries; `Agent.Touches`
says that two agents differ at most in a region and in the selection. The behavior of a game
is an argument of the engine, so what the engine may expect of it is a predicate on rules:
`Rules.Modest` (leaves, conditions and filters touch only what is theirs) and
`Rules.Decided` (leaves answer running, finished or failed).

A `Passage` is a relation between an agent, the notes of something done with it, and the
agent afterwards. It holds of a composition when it holds of the parts, so `Play.Keeps` is
shown of the pieces of an execution and carried to the whole.
-/

namespace BehaviorTree

variable {G : Game} {α β : Type}

/-! ## Regions of a context -/

/-- The kinds of values that belong to the game. -/
def Slot.IsGame : Slot G → Prop
  | game _ => True
  | resumeIndex | execCount | timer | status | currentAction | completed => False

/-- The kinds of values that the logic of a game can name at all. The current action and a
waiting result are known to the engine alone. -/
def Slot.IsOpen : Slot G → Prop
  | resumeIndex | execCount | timer | status | game _ => True
  | currentAction | completed => False

/-- A set of context entries, each given by its kind and key. -/
abbrev Region (G : Game) := Slot G → Nat → Prop

namespace Region

/-- The entries of the game's own kinds. -/
def ofGame : Region G := fun slot _ => slot.IsGame

/-- What belongs to a leaf: the entries of the game's own kinds, and those under the leaf's
identity that a game's logic can name. -/
def ofLeaf (id : NodeId) : Region G := fun slot key => slot.IsGame ∨ slot.IsOpen ∧ key = id.raw

end Region

namespace Agent

/-- Entries outside a region are the same before and after. -/
def Spares (region : Region G) (before after : Agent G) : Prop :=
  ∀ slot key, ¬ region slot key → after.context.get? slot key = before.context.get? slot key

/-- An agent as it is has no entry changed. -/
theorem Spares.refl {region : Region G} (agent : Agent G) : agent.Spares region agent :=
  fun _ _ _ => rfl

/-- Entries that are spared twice are spared by both together. -/
theorem Spares.trans {region : Region G} {first second third : Agent G}
    (hfirst : first.Spares region second) (hsecond : second.Spares region third) :
    first.Spares region third :=
  fun slot key h => (hsecond slot key h).trans (hfirst slot key h)

/-- What spares all outside a region spares all outside a larger one. -/
theorem Spares.mono {small large : Region G} {before after : Agent G}
    (h : before.Spares small after) (hle : ∀ slot key, small slot key → large slot key) :
    before.Spares large after :=
  fun slot key hlarge => h slot key fun hsmall => hlarge (hle slot key hsmall)

/-- Nothing has changed but the context, the selection and the recording. -/
structure Stands (before after : Agent G) : Prop where
  entity : after.entity = before.entity
  behavior : after.behavior = before.behavior
  status : after.status = before.status
  paused : after.paused = before.paused
  zone : after.zone = before.zone
  ticks : after.ticks = before.ticks

/-- An agent stands as it is. -/
theorem Stands.refl (agent : Agent G) : agent.Stands agent := ⟨rfl, rfl, rfl, rfl, rfl, rfl⟩

/-- An agent that stands as it did, twice, stands as it did at first. -/
theorem Stands.trans {first second third : Agent G} (hfirst : first.Stands second)
    (hsecond : second.Stands third) : first.Stands third where
  entity := hsecond.entity.trans hfirst.entity
  behavior := hsecond.behavior.trans hfirst.behavior
  status := hsecond.status.trans hfirst.status
  paused := hsecond.paused.trans hfirst.paused
  zone := hsecond.zone.trans hfirst.zone
  ticks := hsecond.ticks.trans hfirst.ticks

/-- Nothing has changed but the selection and the entries of a region. -/
structure Touches (region : Region G) (before after : Agent G) : Prop where
  stands : before.Stands after
  trace : after.trace = before.trace
  spares : before.Spares region after

/-- An agent as it is touches nothing. -/
theorem Touches.refl {region : Region G} (agent : Agent G) : agent.Touches region agent :=
  ⟨.refl agent, rfl, .refl agent⟩

/-- What touches a region twice touches no more than it. -/
theorem Touches.trans {region : Region G} {first second third : Agent G}
    (hfirst : first.Touches region second) (hsecond : second.Touches region third) :
    first.Touches region third where
  stands := hfirst.stands.trans hsecond.stands
  trace := hsecond.trace.trans hfirst.trace
  spares := hfirst.spares.trans hsecond.spares

/-- What touches a region touches a larger one. -/
theorem Touches.mono {small large : Region G} {before after : Agent G}
    (h : before.Touches small after) (hle : ∀ slot key, small slot key → large slot key) :
    before.Touches large after :=
  ⟨h.stands, h.trace, h.spares.mono hle⟩

/-- What touches the entries of the game's own kinds touches what belongs to a leaf. -/
theorem Touches.of_game {before after : Agent G} (h : before.Touches .ofGame after)
    (id : NodeId) : before.Touches (.ofLeaf id) after :=
  h.mono fun _ _ => Or.inl

/-- A change of the selection touches no entries. -/
theorem touches_select {region : Region G} (agent : Agent G)
    (change : List EntityId → List EntityId) :
    agent.Touches region { agent with selection := change agent.selection } :=
  ⟨⟨rfl, rfl, rfl, rfl, rfl, rfl⟩, rfl, fun _ _ _ => rfl⟩

/-! ## Single entries -/

/-- To remember something leaves all other entries alone. -/
theorem get?_remember_of_ne (agent : Agent G) (slot : Slot G) {other : Slot G}
    {key place : Nat} (value : slot.Value) (h : ¬ (other = slot ∧ place = key)) :
    (agent.remember slot key value).context.get? other place =
      agent.context.get? other place := by
  by_cases hslot : slot = other
  · subst hslot
    exact agent.context.get?_set_of_key_ne slot (fun hkey => h ⟨rfl, hkey.symm⟩) value
  · exact agent.context.get?_set_of_kind_ne hslot key value place

/-- To forget something leaves all other entries alone. -/
theorem get?_forget_of_ne (agent : Agent G) {slot other : Slot G} {key place : Nat}
    (h : ¬ (other = slot ∧ place = key)) :
    (agent.forget slot key).context.get? other place = agent.context.get? other place := by
  by_cases hslot : slot = other
  · subst hslot
    exact agent.context.get?_remove_of_key_ne slot (fun hkey => h ⟨rfl, hkey.symm⟩)
  · exact agent.context.get?_remove_of_kind_ne hslot key place

/-- To remember something of a region spares all outside of it. -/
theorem spares_remember (agent : Agent G) (region : Region G) (slot : Slot G) {key : Nat}
    (value : slot.Value) (h : region slot key) :
    agent.Spares region (agent.remember slot key value) := by
  intro other place hregion
  refine agent.get?_remember_of_ne slot value ?_
  rintro ⟨rfl, rfl⟩
  exact hregion h

/-- To forget something of a region spares all outside of it. -/
theorem spares_forget (agent : Agent G) (region : Region G) {slot : Slot G} {key : Nat}
    (h : region slot key) : agent.Spares region (agent.forget slot key) := by
  intro other place hregion
  refine agent.get?_forget_of_ne ?_
  rintro ⟨rfl, rfl⟩
  exact hregion h

/-- The same value stored on both sides makes no difference anywhere. -/
theorem Spares.remember {region : Region G} {one other : Agent G} (h : one.Spares region other)
    (slot : Slot G) (key : Nat) (value : slot.Value) :
    (one.remember slot key value).Spares region (other.remember slot key value) := by
  intro place k hout
  by_cases hsame : place = slot ∧ k = key
  · obtain ⟨rfl, rfl⟩ := hsame
    exact (other.context.get?_set_self place k value).trans
      (one.context.get?_set_self place k value).symm
  · rw [other.get?_remember_of_ne slot value hsame, one.get?_remember_of_ne slot value hsame]
    exact h place k hout

/-- The same entry dropped on both sides makes no difference anywhere. -/
theorem Spares.forget {region : Region G} {one other : Agent G} (h : one.Spares region other)
    (slot : Slot G) (key : Nat) :
    (one.forget slot key).Spares region (other.forget slot key) := by
  intro place k hout
  by_cases hsame : place = slot ∧ k = key
  · obtain ⟨rfl, rfl⟩ := hsame
    exact (other.context.get?_remove_self place k).trans (one.context.get?_remove_self place k).symm
  · rw [other.get?_forget_of_ne hsame, one.get?_forget_of_ne hsame]
    exact h place k hout

/-- To remember something of a region touches no more than it. -/
theorem touches_remember (agent : Agent G) (region : Region G) (slot : Slot G) {key : Nat}
    (value : slot.Value) (h : region slot key) :
    agent.Touches region (agent.remember slot key value) :=
  ⟨⟨rfl, rfl, rfl, rfl, rfl, rfl⟩, rfl, agent.spares_remember region slot value h⟩

end Agent

/-! ## Notes -/

namespace Note

/-- Whether a note only reports something to the developer. -/
def IsReport : Note → Prop
  | reported _ => True
  | entered _ | acted _ _ | tested _ _ _ | executed _ _ => False

/-- The node that a note is about. -/
def node? : Note → Option NodeId
  | entered id | acted id _ | tested id _ _ | executed id _ => some id
  | reported _ => none

/-- Whether a note shows that something of a node's own was called: its set-up, its logic or
a condition that gates it. -/
def Calls (id : NodeId) : Note → Prop
  | entered other | acted other _ | tested other _ _ => other = id
  | executed _ _ | reported _ => False

/-- A report is about no node. -/
theorem IsReport.node?_eq_none {note : Note} (h : note.IsReport) : note.node? = none := by
  cases note with
  | reported => rfl
  | entered | acted | tested | executed => exact h.elim

/-- What is called of a node's own is about the node. -/
theorem Calls.node?_eq {note : Note} {id : NodeId} (h : note.Calls id) :
    note.node? = some id := by
  cases note with
  | entered | acted | tested => exact congrArg some h
  | executed | reported => exact h.elim

end Note

/-! ## What is expected of a game -/

/-- A piece of a game's logic touches nothing but the selection and a region, and leaves no
notes but reports. -/
def Play.StaysIn (region : Region G) (play : Play G α) : Prop :=
  ∀ agent, agent.Touches region (play agent).agent ∧ ∀ note ∈ (play agent).notes, note.IsReport

/-- The logic of a game touches only what is its own: a leaf its selection and entries, a
condition or filter the selection and the entries of the game's own kinds. -/
structure Rules.Modest (rules : Rules G) : Prop where
  enter : ∀ leaf id, (rules.enter leaf id).StaysIn (.ofLeaf id)
  act : ∀ leaf id elapsed, (rules.act leaf id elapsed).StaysIn (.ofLeaf id)
  test : ∀ test node, (rules.test test node).StaysIn .ofGame
  sift : ∀ sieve, (rules.sift sieve).StaysIn .ofGame

/-- A status that a run of a leaf is meant to end with. -/
def Status.IsDecided (status : Status) : Prop :=
  status = .running ∨ status = .finished ∨ status = .failed

/-- Every leaf of a game answers running, finished or failed. -/
def Rules.Decided (rules : Rules G) : Prop :=
  ∀ leaf id elapsed agent, (rules.act leaf id elapsed agent).value.IsDecided

/-- A game of leaves that answer by the length of the tick alone. -/
def Game.clocked (Leaf : Type) : Game where
  Leaf := Leaf
  Test := Empty
  Sieve := Empty
  Memory := Empty
  Recall := nofun

/-- The rules of such a game, given by what each leaf answers. -/
def Rules.clocked {Leaf : Type} (answer : Leaf → Nat → Status) : Rules (Game.clocked Leaf) where
  enter _ _ := pure ()
  act leaf _ elapsed := pure (answer leaf elapsed)
  test := nofun
  sift := nofun

/-- A game whose leaves answer by the clock alone touches nothing. -/
theorem Rules.clocked_modest {Leaf : Type} (answer : Leaf → Nat → Status) :
    (Rules.clocked answer).Modest where
  enter _ _ agent := ⟨.refl agent, by simp [clocked]⟩
  act _ _ _ agent := ⟨.refl agent, by simp [clocked]⟩
  test := nofun
  sift := nofun

/-- A game whose leaves answer by the clock alone is decided if all its answers are. -/
theorem Rules.clocked_decided {Leaf : Type} {answer : Leaf → Nat → Status}
    (h : ∀ leaf elapsed, (answer leaf elapsed).IsDecided) : (Rules.clocked answer).Decided :=
  fun leaf _ elapsed _ => h leaf elapsed

/-! ## Passages -/

/-- A relation between an agent, the notes of something done with it, and the agent
afterwards, that holds of nothing done and of one thing done after another. -/
structure Passage (G : Game) where
  allows : Agent G → List Note → Agent G → Prop
  stay : ∀ agent, allows agent [] agent
  join : ∀ {first second third : Agent G} {early late : List Note},
    allows first early second → allows second late third → allows first (early ++ late) third

/-- Something done with an agent is a passage of a kind, whatever the agent. -/
def Play.Keeps (passage : Passage G) (play : Play G α) : Prop :=
  ∀ agent, passage.allows agent (play agent).notes (play agent).agent

namespace Play

variable {passage : Passage G}

/-- To answer without looking at an agent keeps to every passage. -/
theorem keeps_pure (value : α) : (pure value : Play G α).Keeps passage := passage.stay

/-- To look at an agent keeps to every passage. -/
theorem keeps_look (view : Agent G → α) : (look view).Keeps passage := passage.stay

/-- A change keeps to a passage that allows it. -/
theorem keeps_change {step : Agent G → Agent G}
    (h : ∀ agent, passage.allows agent [] (step agent)) : (change step).Keeps passage := h

/-- A note keeps to a passage that allows it. -/
theorem keeps_note {what : Note} (h : ∀ agent, passage.allows agent [what] agent) :
    (note what).Keeps passage := h

/-- What is followed by plays that keep to a passage does so if it kept to it itself. -/
theorem Keeps.bind {first : Play G α} {next : α → Play G β} (hfirst : first.Keeps passage)
    (hnext : ∀ value, (next value).Keeps passage) : (first >>= next).Keeps passage :=
  fun agent => passage.join (hfirst agent) (hnext _ _)

/-- A choice between two plays keeps to a passage that both keep to. -/
theorem Keeps.ite {condition : Prop} [Decidable condition] {yes no : Play G α}
    (hyes : yes.Keeps passage) (hno : no.Keeps passage) :
    (if condition then yes else no).Keeps passage := by
  split
  · exact hyes
  · exact hno

end Play

/-- Only the context, the selection and the recording change, the context only in a region,
and all notes about nodes are about some given ones. -/
structure Agent.Confined (region : Region G) (ids : List NodeId) (before : Agent G)
    (notes : List Note) (after : Agent G) : Prop where
  stands : before.Stands after
  spares : before.Spares region after
  about : ∀ note ∈ notes, ∀ id ∈ note.node?, id ∈ ids

/-- What is confined stays confined. -/
def Passage.confined (region : Region G) (ids : List NodeId) : Passage G where
  allows := Agent.Confined region ids
  stay agent := ⟨.refl agent, .refl agent, by simp⟩
  join hfirst hsecond :=
    { stands := hfirst.stands.trans hsecond.stands
      spares := hfirst.spares.trans hsecond.spares
      about := by
        intro note hnote id hid
        rcases List.mem_append.1 hnote with hnote | hnote
        · exact hfirst.about note hnote id hid
        · exact hsecond.about note hnote id hid }

/-- A property of an agent and of the notes so far that a step preserves. -/
def Passage.invariant (holds : List Note → Agent G → Prop) : Passage G where
  allows before notes after := ∀ history, holds history before → holds (history ++ notes) after
  stay agent history h := by rwa [List.append_nil]
  join hfirst hsecond history h := by
    rw [← List.append_assoc]
    exact hsecond _ (hfirst history h)

end BehaviorTree
