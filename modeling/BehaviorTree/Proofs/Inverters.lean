import BehaviorTree.Proofs.Graft
import BehaviorTree.Proofs.Ungated
import Mathlib.Logic.Function.Iterate

/-!
# Chains of inverters

Inverters without gates, each the only child of the one before, above a subtree
(`Node.invertedBy`). An execution of such a chain is one of the subtree, with the result inverted
as often as the chain is long, and but for the results of the inverters themselves nothing else
happens (`Node.execute_inverted_by`).

As long as the subtree comes out with results that an inverter takes back, only the parity of the
length matters (`Status.invert_iterate`), so chains of one parity are executed in accord
(`Node.inverted_by_accords`), and one may stand for another in a tree
(`Node.Grafts.graft_inverters`).
-/

namespace BehaviorTree

variable {G : Game} {rules : Rules G} {kept kept' : NodeId → Bool} {elapsed : Nat}

/-! ## Inverting repeatedly -/

namespace Status

/-- How often a result that an inverter takes back is inverted matters up to parity. -/
theorem invert_iterate {status : Status} (h : status.IsDecided) :
    ∀ n : Nat, invert^[n] status = invert^[n % 2] status
  | 0 | 1 => rfl
  | n + 2 => by
      rw [Nat.add_mod_right, ← invert_iterate h n]
      show invert^[n] status.invert.invert = invert^[n] status
      rw [invert_invert h]

/-- A blocked result counts as a success for the first inverter, so a chain of odd length comes out
finished and a chain of even length failed. -/
theorem invert_iterate_can_not_execute {n : Nat} (h : 0 < n) :
    invert^[n] canNotExecute = if n % 2 = 1 then finished else failed := by
  obtain ⟨m, rfl⟩ := Nat.exists_eq_add_of_lt h
  have hdecided : finished.IsDecided := .inr (.inl rfl)
  rw [Nat.zero_add]
  show invert^[m] finished = _
  rw [invert_iterate hdecided]
  rcases Nat.mod_two_eq_zero_or_one m with hm | hm
  · rw [hm, if_pos (by omega)]
    rfl
  · rw [hm, if_neg (by omega)]
    rfl

end Status

/-! ## Chains -/

/-- An entry among some identities is among more of them. -/
theorem Region.among.mono {small large : List NodeId} {slot : Slot G} {key : Nat}
    (h : Region.among small slot key) (hle : ∀ id ∈ small, id ∈ large) :
    Region.among large slot key :=
  ⟨h.1, h.2.imp fun id hid => ⟨hle id hid.1, hid.2⟩⟩

namespace Node

/-- A chain of inverters without gates above a node, the first of the identities at the top. -/
def invertedBy (inner : Node G) (ids : List NodeId) : Node G := ids.foldr inverted inner

variable {inner : Node G} {ids : List NodeId}

/-- The first identity of a chain is that of the inverter at the top. -/
theorem inverted_by_cons (inner : Node G) (id : NodeId) (ids : List NodeId) :
    inner.invertedBy (id :: ids) = (inner.invertedBy ids).inverted id := rfl

/-- An inverter has its child among its children. -/
theorem mem_children_inverted (id : NodeId) (child : Node G) :
    child ∈ (child.inverted id).children := List.mem_singleton_self child

/-- An inverter is not a leaf. -/
theorem family_inverted (id : NodeId) (child : Node G) : (child.inverted id).family ≠ .action := by
  simp [inverted, family]

/-- Inverters are no leaves, so the leaves of a chain are those of the node at its end. -/
theorem leaf_mem_inverted_by {leaf : Node G} (hleaf : leaf.family = .action) :
    leaf ∈ (inner.invertedBy ids).preorder ↔ leaf ∈ inner.preorder := by
  induction ids with
  | nil => rfl
  | cons id rest ih =>
      rw [← ih, inverted_by_cons, mem_preorder]
      constructor
      · rintro (rfl | ⟨child, hchild, hlow⟩)
        · exact absurd hleaf (family_inverted _ _)
        · rwa [List.mem_singleton.1 hchild] at hlow
      · exact fun hlow => .inr ⟨_, mem_children_inverted _ _, hlow⟩

/-- The node at the end of a chain stands below its top. -/
theorem inner_mem_inverted_by (inner : Node G) (ids : List NodeId) :
    inner ∈ (inner.invertedBy ids).preorder := by
  induction ids with
  | nil => exact inner.self_mem_preorder
  | cons id rest ih => exact preorder_trans (child_mem_preorder (mem_children_inverted _ _)) ih

/-- All identities of a chain stand at or below its top. -/
theorem ids_subset_inverted_by : ∀ id ∈ ids, id ∈ (inner.invertedBy ids).ids := by
  induction ids with
  | nil => nofun
  | cons first rest ih =>
      refine List.forall_mem_cons.2 ⟨(inner.invertedBy (first :: rest)).id_mem_ids, ?_⟩
      exact fun id hid =>
        ids_subset (child_mem_preorder (mem_children_inverted first _)) (ih id hid)

/-- Where no identity occurs twice, the node at the end of a chain uses none of the chain's. -/
theorem Distinct.chain_apart (h : (inner.invertedBy ids).Distinct) :
    ∀ id ∈ ids, id ∉ inner.ids := by
  induction ids with
  | nil => nofun
  | cons first rest ih =>
      rw [inverted_by_cons] at h
      have hchild := mem_children_inverted first (inner.invertedBy rest)
      refine List.forall_mem_cons.2 ⟨fun hmem => ?_, ih (h.child hchild)⟩
      exact h.id_not_mem hchild (ids_subset (inner_mem_inverted_by inner rest) hmem)

/-! ## Executions of chains -/

/-- What an execution of a chain adds to one of the node at its end. -/
structure Inversions (ids : List NodeId) (first outcome : Outcome G Status) : Prop where
  value : outcome.value = Status.invert^[ids.length] first.value
  notes : ∃ late, outcome.notes = first.notes ++ late ∧ calls late = []
  stands : first.agent.Stands outcome.agent
  selection : outcome.agent.selection = first.agent.selection
  spares : first.agent.Spares (.among ids) outcome.agent

/-- An execution of a chain is one of the node at its end, with the result inverted as often as the
chain is long. -/
theorem execute_inverted_by (rules : Rules G) (kept : NodeId → Bool) (elapsed : Nat)
    (inner : Node G) (ids : List NodeId) (agent : Agent G) :
    Inversions ids (inner.execute rules kept elapsed agent)
      ((inner.invertedBy ids).execute rules kept elapsed agent) := by
  induction ids with
  | nil => exact ⟨rfl, ⟨[], (List.append_nil _).symm, rfl⟩, .refl _, rfl, .refl _⟩
  | cons id rest ih =>
      obtain ⟨late, hnotes, hlate⟩ := ih.notes
      rw [inverted_by_cons, execute_inverted]
      constructor
      case value => rw [List.length_cons, Function.iterate_succ_apply', ← ih.value]
      case notes =>
        refine ⟨_, (congrArg (· ++ _) hnotes).trans (List.append_assoc _ _ _), ?_⟩
        rw [calls_append, hlate]
        rfl
      case stands => exact ih.stands.trans (Agent.stands_settle _ id _)
      case selection => exact ih.selection
      case spares =>
        refine (ih.spares.mono fun slot key hin => ?_).trans
          (Agent.spares_settle _ _ _ (Region.among_of_mem List.mem_cons_self (by simp)))
        exact hin.mono fun _ => List.mem_cons_of_mem id

/-- A node comes out with a result that an inverter takes back. -/
def Undone (inner : Node G) (execution : NodeId × Status) : Prop :=
  execution.1 = inner.id → execution.2.IsDecided

/-- Chains of one parity are executed in accord above a node that uses none of their identities, as
long as it comes out with results that an inverter takes back. -/
theorem inverted_by_accords {tree flat : Tree G} (hrules : rules.Local [tree])
    (haloof : inner.Aloof ids tree flat) {short chain : List NodeId}
    (hshort : ∀ id ∈ short, id ∈ ids) (hchain : ∀ id ∈ chain, id ∈ ids)
    (hparity : short.length % 2 = chain.length % 2) :
    (inner.invertedBy short).InAccord inner.Undone rules kept kept' elapsed
      (Agent.Joined ids tree flat fun _ _ => True) (inner.invertedBy chain) := by
  intro one other h hfair
  have hinner : inner.InAccord (fun _ => True) rules kept kept' elapsed
      (Agent.Joined ids tree flat fun _ _ => True) inner :=
    haloof.accords hrules ⟨fun _ _ _ => trivial⟩
  obtain ⟨hvalue, hcalls, hjoined⟩ := hinner.always one other h
  have hone := execute_inverted_by rules kept elapsed inner short one
  have hother := execute_inverted_by rules kept' elapsed inner chain other
  obtain ⟨late, hnotes, hlate⟩ := hone.notes
  obtain ⟨late', hnotes', hlate'⟩ := hother.notes
  have hdecided : (inner.execute rules kept elapsed one).value.IsDecided := by
    obtain ⟨early, hexecuted⟩ := inner.executions_execute rules kept elapsed one
    refine hfair (inner.id, _) ?_ rfl
    rw [hnotes, executions_append, hexecuted]
    exact List.mem_append_left _ (List.mem_append_right early (List.mem_singleton_self _))
  refine ⟨?_, ?_, ⟨hjoined.toBeside.apart hone.stands hother.stands hone.selection
    hother.selection (hone.spares.mono fun _ _ hin => hin.mono hshort)
    (hother.spares.mono fun _ _ hin => hin.mono hchain), trivial⟩⟩
  · rw [hone.value, hother.value, hvalue, Status.invert_iterate hdecided, ← hparity,
      ← Status.invert_iterate hdecided]
  · rw [hnotes, hnotes', calls_append, calls_append, hcalls, hlate, hlate']

/-! ## Chains in a tree -/

/-- In a tree a chain may be replaced by one of the same parity. -/
theorem Grafts.graft_inverters {tree flat : Tree G} {short chain : List NodeId}
    (h : (inner.invertedBy short).Grafts (inner.invertedBy chain) tree.toNode flat.toNode)
    (hrules : rules.Local [tree]) (hshallow : rules.Shallow) (hdistinct : tree.toNode.Distinct)
    (hdistinct' : flat.toNode.Distinct) (hparity : short.length % 2 = chain.length % 2) :
    Graft inner.Undone rules (short ++ chain) tree flat fun _ _ => True := by
  have hold : (inner.invertedBy short).Distinct := hdistinct.of_mem_preorder h.old_mem
  have hnew : (inner.invertedBy chain).Distinct := hdistinct'.of_mem_preorder h.new_mem
  have hkept : ∀ leaf ∈ (inner.invertedBy short).preorder, leaf.family = .action →
      leaf ∈ (inner.invertedBy chain).preorder := fun leaf hmem hleaf =>
    (leaf_mem_inverted_by hleaf).2 ((leaf_mem_inverted_by hleaf).1 hmem)
  have hapart : ∀ id ∈ short ++ chain, id ∉ inner.ids := fun id hid =>
    (List.mem_append.1 hid).elim (hold.chain_apart id) (hnew.chain_apart id)
  refine h.graft hrules hshallow hdistinct ⟨fun _ _ _ => trivial⟩ hkept ?_ ?_ ?_
  · intro id hid hmem
    rcases List.mem_append.1 hid with hshort | hchain
    · exact ids_subset_inverted_by id hshort
    · exact h.ids_subset_old hdistinct' (ids_subset_inverted_by id hchain) hmem
  · intro leaf hmem hleaf hid
    exact hapart leaf.id hid (mem_ids.2 ⟨leaf, (leaf_mem_inverted_by hleaf).1 hmem, rfl⟩)
  · intro kept kept' elapsed
    have haloof : inner.Aloof (short ++ chain) tree flat :=
      .of_not_mem (preorder_trans h.old_mem (inner_mem_inverted_by inner short)) (h.shares hkept)
        hapart
    exact inverted_by_accords hrules haloof (fun _ => List.mem_append_left chain)
      (fun _ => List.mem_append_right short) hparity

end Node

end BehaviorTree
