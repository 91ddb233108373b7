import BehaviorTree.Proofs.Linking

/-!
# Discreet games

A game is discreet if its leaves, conditions and filters keep away from what the engine stores
about the progress of nodes: last statuses, resume positions and the current action. They may
change everything else, other nodes' timers and counts included.

Under a discreet game the last status and the position of a node change by executions of the
node alone (`Drift.place_owned`), and no execution makes an agent refer to a node outside the
trees that it was given (`Rules.Discreet.loyal`).
-/

namespace BehaviorTree

variable {G : Game} {forest : List (Tree G)}

/-! ## What a discreet game may touch -/

/-- Everything but last statuses, resume positions and the current action. -/
def Region.beside : Region G := fun slot _ =>
  slot ≠ .status ∧ slot ≠ .resumeIndex ∧ slot ≠ .currentAction

/-- Nothing that the engine stores about the progress of nodes has changed, and no tree from
outside a forest was attached. -/
structure Agent.Discreet (forest : List (Tree G)) (before after : Agent G) : Prop where
  spares : before.Spares .beside after
  behavior : (∀ tree ∈ before.behavior, tree ∈ forest) → ∀ tree ∈ after.behavior, tree ∈ forest

/-- Doings that are discreet. -/
def Passage.discreet (forest : List (Tree G)) : Passage G where
  allows before _ after := before.Discreet forest after
  stay agent := ⟨.refl agent, id⟩
  join hfirst hsecond :=
    ⟨hfirst.spares.trans hsecond.spares, fun h => hsecond.behavior (hfirst.behavior h)⟩

/-- The leaves, conditions and filters of a game are discreet. -/
structure Rules.Discreet (rules : Rules G) (forest : List (Tree G)) : Prop where
  enter : ∀ leaf id, (rules.enter leaf id).Keeps (.discreet forest)
  act : ∀ leaf id elapsed, (rules.act leaf id elapsed).Keeps (.discreet forest)
  test : ∀ test node, (rules.test test node).Keeps (.discreet forest)
  sift : ∀ sieve, (rules.sift sieve).Keeps (.discreet forest)

/-- Leaves that go by the clock alone are discreet. -/
theorem Rules.clocked_discreet {Leaf : Type} (answer : Leaf → Nat → Status)
    (forest : List (Tree (Game.clocked Leaf))) : (Rules.clocked answer).Discreet forest where
  enter _ _ := Play.keeps_pure ()
  act leaf _ elapsed := Play.keeps_pure (answer leaf elapsed)
  test := nofun
  sift := nofun

/-- What spares the progress of nodes and keeps the tree is discreet. -/
theorem Agent.Discreet.of_spares {before after : Agent G} {region : Region G}
    (hspares : before.Spares region after) (hbehavior : after.behavior = before.behavior)
    (hregion : ∀ slot key, region slot key → Region.beside slot key) :
    before.Discreet forest after :=
  ⟨hspares.mono hregion, fun h => hbehavior ▸ h⟩

/-- Whoever touches only what belongs to the game is discreet. -/
theorem Agent.Discreet.of_game {before after : Agent G} (h : before.Touches .ofGame after) :
    before.Discreet forest after := by
  refine .of_spares h.spares h.stands.behavior fun slot _ hgame => ?_
  cases slot with
  | game => simp [Region.beside]
  | resumeIndex | execCount | timer | status | currentAction | completed => exact hgame.elim

variable {rules : Rules G}

/-- A discreet game respects the last status and the position of every node. -/
theorem Rules.Discreet.keep (h : rules.Discreet forest) (id : NodeId) (node : Node G) :
    rules.Keep (.respecting (fun slot => slot = .status ∨ slot = .resumeIndex) id forest) node := by
  have hrespects : ∀ {before after : Agent G}, before.Discreet forest after →
      before.Respects (fun slot => slot = .status ∨ slot = .resumeIndex) id forest after := by
    refine fun hdiscreet => ⟨fun slot hslot => ?_, ?_, hdiscreet.behavior⟩
    · refine hdiscreet.spares slot id.raw fun hbeside => ?_
      exact hslot.elim hbeside.1 hbeside.2.1
    · exact hdiscreet.spares.mono fun _ _ hbeside => hbeside.2.2
  exact
    { enter := fun leaf agent => hrespects (h.enter leaf node.id agent)
      act := fun leaf elapsed agent => hrespects (h.act leaf node.id elapsed agent)
      test := fun test agent => hrespects (h.test test node agent)
      sift := fun _ sieve _ agent => hrespects (h.sift sieve agent) }

/-- A discreet game respects last statuses and positions under every identity. -/
theorem Rules.Discreet.respect (h : rules.Discreet forest) (id : NodeId) :
    rules.Respect (fun slot => slot = .status ∨ slot = .resumeIndex) id forest :=
  fun node _ => h.keep id node

/-- A discreet game makes no agent refer to a node outside the forest. -/
theorem Rules.Discreet.loyal (h : rules.Discreet forest) : rules.Loyal forest :=
  (h.respect ⟨0⟩).loyal

/-! ## The place of a node -/

/-- The last status and the position of a node stay the same. -/
def Drift.place (id : NodeId) : Drift G where
  rel before after :=
    after.status? id = before.status? id ∧ after.position? id = before.position? id
  refl _ := ⟨rfl, rfl⟩
  trans hfirst hsecond := ⟨hsecond.1.trans hfirst.1, hsecond.2.trans hfirst.2⟩

/-- The place of a node is read off its status and its position. -/
theorem Drift.place_reads (id : NodeId) :
    (Drift.place (G := G) id).Reads (fun slot => slot = .status ∨ slot = .resumeIndex) id where
  of_spares hspares hregion := ⟨hspares .status id.raw (hregion .status (.inl rfl)),
    hspares .resumeIndex id.raw (hregion .resumeIndex (.inr rfl))⟩

/-- The question to the gate of a node leaves the node in its place. -/
theorem Node.open_place (hrules : rules.Discreet forest) (node : Node G) :
    (node.open rules).Keeps (Drift.place node.id).passage :=
  (Drift.place_reads node.id).questions.gate
    ((hrules.keep node.id node).mono fun hrespects => hrespects.rel (Drift.place_reads node.id))

/-- Under a discreet game the place of a node changes by executions of the node alone. -/
theorem Drift.place_owned (hrules : rules.Discreet forest) (id : NodeId) :
    (Drift.place id).Owned rules forest id :=
  (Drift.place_reads id).owned (hrules.respect id) (by simp) (by simp)

end BehaviorTree
