import BehaviorTree.Proofs.LeafRun

/-!
# The reach of an execution

An execution touches nothing outside its own subtree but the game's own entries, the
selection, the recording and the current action, and none of its notes is about a node
elsewhere (`Node.execute_reach`).
-/

namespace BehaviorTree

variable {G : Game} {rules : Rules G} {kept : NodeId → Bool} {elapsed : Nat}

/-- What an execution may touch: the game's own kinds, the current action, and everything
kept under some identities. -/
def Region.under (ids : List NodeId) : Region G := fun slot key =>
  slot.IsGame ∨ slot = .currentAction ∨ ∃ id ∈ ids, id.raw = key

/-- What is kept under another identity, but for the game's own kinds and the current action, is out
of reach. -/
theorem Region.not_under {ids : List NodeId} {slot : Slot G} {id : NodeId}
    (hslot : ¬ slot.IsGame ∧ slot ≠ .currentAction) (hid : id ∉ ids) :
    ¬ Region.under ids slot id.raw := by
  rintro (hgame | hheld | ⟨other, hother, hraw⟩)
  · exact hslot.1 hgame
  · exact hslot.2 hheld
  · exact hid (NodeId.raw_inj.1 hraw ▸ hother)

/-- What belongs to a leaf is within reach of an execution above it. -/
theorem Region.under_of_leaf {ids : List NodeId} {id : NodeId} (hid : id ∈ ids)
    (slot : Slot G) (key : Nat) (h : Region.ofLeaf id slot key) : Region.under ids slot key := by
  rcases h with hgame | ⟨_, rfl⟩
  · exact .inl hgame
  · exact .inr (.inr ⟨id, hid, rfl⟩)

/-- Doings that reach no further than some identities. -/
abbrev Passage.reach (ids : List NodeId) : Passage G := .confined (.under ids) ids

/-- What the engine does at a node is within reach of an execution above it. -/
theorem Passage.reach_serves {ids : List NodeId} {id : NodeId} (hid : id ∈ ids) :
    (Passage.reach (G := G) ids).Serves id where
  quiet htouches hnotes :=
    { stands := htouches.stands
      spares := htouches.spares.mono fun _ _ hgame => .inl hgame
      about := by
        intro note hnote other hother
        simp [(hnotes note hnote).node?_eq_none] at hother }
  tested agent name holds := ⟨.refl agent, .refl agent, by simp [Note.node?, hid]⟩
  position agent index :=
    ⟨⟨rfl, rfl, rfl, rfl, rfl, rfl⟩,
      agent.spares_remember _ .resumeIndex index (.inr (.inr ⟨id, hid, rfl⟩)), by simp⟩
  unposition agent :=
    ⟨⟨rfl, rfl, rfl, rfl, rfl, rfl⟩,
      agent.spares_forget _ (.inr (.inr ⟨id, hid, rfl⟩)), by simp⟩
  count agent :=
    ⟨⟨rfl, rfl, rfl, rfl, rfl, rfl⟩,
      agent.spares_remember _ .execCount _ (.inr (.inr ⟨id, hid, rfl⟩)), by simp⟩
  conclude agent status :=
    ⟨agent.stands_settle id status, agent.spares_settle _ status (.inr (.inr ⟨id, hid, rfl⟩)),
      by simp [Note.node?, hid]⟩

/-- What goes before the logic of a node is about the node. -/
theorem Note.Precedes.about {note : Note} {id : NodeId} (h : note.Precedes id) :
    ∀ other ∈ note.node?, other = id := by
  cases note with
  | entered | tested => simpa [Note.node?, Note.Precedes] using h
  | reported => simp [Note.node?]
  | acted | executed => exact h.elim

namespace Node

/-- A leaf reaches no further than an execution above it. -/
theorem LeafRun.reach {node : Node G} {agent : Agent G} {outcome : Outcome G Status}
    {ids : List NodeId} (hid : node.id ∈ ids) (h : node.LeafRun rules kept agent outcome) :
    (Passage.reach ids).allows agent outcome.notes outcome.agent := by
  have hstatus : Region.under (G := G) ids .status node.id.raw := .inr (.inr ⟨_, hid, rfl⟩)
  have hheld : ∀ key, Region.under (G := G) ids .currentAction key := fun _ => .inr (.inl rfl)
  have hnears : ∀ {near notes}, node.Nears agent notes near →
      agent.Stands near ∧ agent.Spares (.under ids) near ∧
        ∀ note ∈ notes, ∀ other ∈ note.node?, other ∈ ids := by
    intro near notes hnear
    refine ⟨hnear.touches.stands, hnear.touches.spares.mono (Region.under_of_leaf hid), ?_⟩
    intro note hnote other hother
    rw [(hnear.precede note hnote).about other hother]
    exact hid
  -- In each case the leaf settles its own status; it may give its place as current action up or
  -- take it.
  cases h with
  | claimed hwaiting =>
      exact ⟨⟨rfl, rfl, rfl, rfl, rfl, rfl⟩,
        (agent.spares_forget _ (.inr (.inr ⟨_, hid, rfl⟩))).trans
          (Agent.spares_settle _ _ _ hstatus), by simp [Note.node?, hid]⟩
  | blocked hwaiting hnear =>
      obtain ⟨hstands, hspares, habout⟩ := hnears hnear
      refine ⟨(hstands.trans (Agent.stands_release _ _)).trans (Agent.stands_settle _ _ _),
        (hspares.trans (Agent.spares_release _ _ _ (hheld _))).trans
          (Agent.spares_settle _ _ _ hstatus), ?_⟩
      intro note hnote other hother
      rcases List.mem_append.1 hnote with hnote | hnote
      · exact habout note hnote other hother
      · simp_all [Note.node?]
  | ran hwaiting hnear hdecided =>
      obtain ⟨hstands, hspares, habout⟩ := hnears hnear
      refine ⟨(hstands.trans (Agent.stands_follow _ _ _ _)).trans (Agent.stands_settle _ _ _),
        (hspares.trans (Agent.spares_follow _ _ _ _ _ (hheld _))).trans
          (Agent.spares_settle _ _ _ hstatus), ?_⟩
      intro note hnote other hother
      rcases List.mem_append.1 hnote with hnote | hnote
      · exact habout note hnote other hother
      · simp only [List.mem_cons, List.not_mem_nil, or_false] at hnote
        rcases hnote with rfl | rfl <;> simp_all [Note.node?]

/-- An execution reaches no further than the identities at and below the node. -/
theorem execute_reach (hrules : rules.Modest) (kept : NodeId → Bool) (elapsed : Nat)
    (node : Node G) {ids : List NodeId} (hids : ∀ id ∈ node.ids, id ∈ ids) :
    (node.execute rules kept elapsed).Keeps (.reach ids) := by
  have hself : node.id ∈ ids := hids _ node.id_mem_ids
  induction node using by_family with
  | inner node hinner ih =>
      refine execute_keeps hrules hinner (Passage.reach_serves hself) fun child hchild => ?_
      have hbelow : ∀ id ∈ child.ids, id ∈ ids := fun id hid =>
        hids id (ids_subset (child_mem_preorder hchild) hid)
      exact ih child hchild hbelow (hbelow _ child.id_mem_ids)
  | leaf node hleaf =>
      exact fun agent => (execute_leaf_run hrules kept elapsed hleaf agent).reach hself

end Node

end BehaviorTree
