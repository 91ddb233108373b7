import BehaviorTree.Proofs.Reach

/-!
# Drifts

A `Drift` is a relation between an agent and a later one that does not care what happened in
between: entries that stay the same, counts that do not fall, results that do not begin to
wait.
-/

namespace BehaviorTree

variable {G : Game} {rules : Rules G}

/-- A relation between an agent and a later one. -/
structure Drift (G : Game) where
  rel : Agent G → Agent G → Prop
  refl : ∀ agent, rel agent agent
  trans : ∀ {first second third : Agent G}, rel first second → rel second third → rel first third

/-- Doings in which an agent drifts. -/
def Drift.passage (drift : Drift G) : Passage G where
  allows before _ after := drift.rel before after
  stay := drift.refl
  join := drift.trans

/-- Everything but what is kept under an identity for the engine. -/
def Region.elsewhere (id : NodeId) : Region G := fun slot key =>
  slot.IsGame ∨ slot = .currentAction ∨ key ≠ id.raw

/-- What is kept under some identities is elsewhere for every other identity. -/
theorem Region.under_elsewhere {ids : List NodeId} {id : NodeId} (hid : id ∉ ids)
    (slot : Slot G) (key : Nat) (h : Region.under ids slot key) : Region.elsewhere id slot key := by
  rcases h with hgame | hheld | ⟨other, hother, rfl⟩
  · exact .inl hgame
  · exact .inr (.inl hheld)
  · exact .inr (.inr fun hraw => hid (NodeId.raw_inj.1 hraw ▸ hother))

namespace Drift

/-- What the engine keeps under an identity stays the same. -/
def entries (id : NodeId) : Drift G where
  rel before after := before.Spares (.elsewhere id) after
  refl := .refl
  trans := .trans

/-- The count kept under an identity does not fall. -/
def counts (id : NodeId) : Drift G where
  rel before after := before.execCountOf id ≤ after.execCountOf id
  refl _ := Nat.le_refl _
  trans := Nat.le_trans

/-- No result begins to wait. -/
def unwaited : Drift G where
  rel before after := ∀ id, before.waiting? id = none → after.waiting? id = none
  refl _ _ := id
  trans hfirst hsecond id h := hsecond id (hfirst id h)

/-- Gates leave alone what the engine keeps under an identity. -/
theorem entries_gates (id other : NodeId) : (entries (G := G) id).passage.Gates other where
  quiet htouches _ := htouches.spares.mono fun _ _ => Or.inl
  tested agent _ _ := .refl agent

/-- Composites and decorators leave alone what is kept under another identity than their own. -/
theorem entries_serves {id other : NodeId} (hne : other ≠ id) :
    (entries (G := G) id).passage.Serves other where
  toGates := entries_gates id other
  position agent index :=
    agent.spares_remember _ .resumeIndex index (.inr (.inr fun h => hne (NodeId.raw_inj.1 h)))
  unposition agent := agent.spares_forget _ (.inr (.inr fun h => hne (NodeId.raw_inj.1 h)))
  count agent :=
    agent.spares_remember _ .execCount _ (.inr (.inr fun h => hne (NodeId.raw_inj.1 h)))
  conclude agent status :=
    agent.spares_settle _ status (.inr (.inr fun h => hne (NodeId.raw_inj.1 h)))

/-- An execution leaves alone what is kept under an identity from elsewhere. -/
theorem execute_entries (hrules : rules.Modest) (kept : NodeId → Bool) (elapsed : Nat)
    {node : Node G} {id : NodeId} (hid : id ∉ node.ids) :
    (node.execute rules kept elapsed).Keeps (entries id).passage := by
  intro agent
  exact (node.execute_reach hrules kept elapsed (fun _ hmem => hmem) agent).spares.mono
    (Region.under_elsewhere hid)

/-- A count that is spared does not fall. -/
theorem counts_of_spares {region : Region G} {before after : Agent G} {id : NodeId}
    (h : before.Spares region after) (hid : ¬ region .execCount id.raw) :
    (counts id).rel before after := Nat.le_of_eq (h.exec_count_of_eq hid).symm

/-- Composites and decorators of any identity do not let a count fall. -/
theorem counts_serves (id other : NodeId) : (counts (G := G) id).passage.Serves other where
  quiet htouches _ := counts_of_spares htouches.spares (by simp [Region.ofGame, Slot.IsGame])
  tested agent _ _ := Nat.le_refl (agent.execCountOf id)
  position agent index :=
    counts_of_spares (agent.spares_remember (fun slot _ => slot = .resumeIndex) .resumeIndex index
      rfl) (by simp)
  unposition agent :=
    counts_of_spares (agent.spares_forget (fun slot _ => slot = .resumeIndex) rfl) (by simp)
  count agent := by
    show agent.execCountOf id ≤ _
    by_cases hid : id = other
    · rw [hid, Agent.exec_count_of_remember]
      omega
    · refine counts_of_spares (agent.spares_remember (.elsewhere id) .execCount _ ?_) ?_
      · exact .inr (.inr fun h => hid (NodeId.raw_inj.1 h).symm)
      · simp [Region.elsewhere, Slot.IsGame]
  conclude agent status :=
    counts_of_spares (agent.spares_settle (fun slot _ => slot = .status) status rfl) (by simp)

/-- Composites and decorators of any identity let no result begin to wait. -/
theorem unwaited_serves (id : NodeId) : (unwaited (G := G)).passage.Serves id where
  toTends := Passage.tends_of_asks fun _ hspares _ other h => by
    rw [hspares.waiting?_eq (by simp [Region.progress, Slot.IsGame]), h]
  conclude agent status other h := by rw [Agent.waiting?_settle, h]

/-- Executions make no result wait. -/
theorem execute_unwaited (hrules : rules.Modest) (kept : NodeId → Bool) (elapsed : Nat)
    (node : Node G) : (node.execute rules kept elapsed).Keeps unwaited.passage := by
  induction node using Node.by_family with
  | inner node hinner ih => exact Node.execute_keeps hrules hinner (unwaited_serves node.id) ih
  | leaf node hleaf =>
      exact fun agent _ h =>
        (Node.execute_leaf_run hrules kept elapsed hleaf agent).waiting?_eq_none h

end Drift

end BehaviorTree
