import BehaviorTree.Proofs.Drift
import BehaviorTree.Proofs.Visits
import Mathlib.Data.List.Chain

/-!
# Trails

How an agent changes from visit to visit. Along a `Trail` the agent drifts, except during
excursions: from a visit to the entrance of some part of a tree on, visits stay inside that
part, and nothing is said of the agent until the part is left.

`Node.visits_trail` gives the trail of an execution, and `Trail.is_chain` says of a trail what
it means for two successive visits.
-/

namespace BehaviorTree

variable {G : Game}

/-- Between visits outside a part of a tree an agent drifts; the part is entered at an entrance
only. -/
inductive Trail (inside entrance : NodeId → Prop) (drift : Drift G) :
    Agent G → List (Visit G) → Agent G → Prop where
  | rest {before after : Agent G} (hmove : drift.rel before after) :
      Trail inside entrance drift before [] after
  | pass {before after : Agent G} {visit : Visit G} {later : List (Visit G)}
      (hmove : drift.rel before visit.agent) (houtside : ¬ inside visit.node.id)
      (hlater : Trail inside entrance drift visit.agent later after) :
      Trail inside entrance drift before (visit :: later) after
  | excursion {before back after : Agent G} {visit : Visit G} {within later : List (Visit G)}
      (hmove : drift.rel before visit.agent) (hentrance : entrance visit.node.id)
      (hinside : ∀ other ∈ visit :: within, inside other.node.id)
      (hlater : Trail inside entrance drift back later after) :
      Trail inside entrance drift before (visit :: (within ++ later)) after

variable {inside entrance : NodeId → Prop} {drift : Drift G}

namespace Trail

variable {before middle after : Agent G} {early late : List (Visit G)}

/-- A trail may begin with a drift. -/
theorem move (hmove : drift.rel before middle) (h : Trail inside entrance drift middle late after) :
    Trail inside entrance drift before late after := by
  cases h with
  | rest hlast => exact .rest (drift.trans hmove hlast)
  | pass hnext houtside hlater => exact .pass (drift.trans hmove hnext) houtside hlater
  | excursion hnext hentrance hinside hlater =>
      exact .excursion (drift.trans hmove hnext) hentrance hinside hlater

/-- A trail may go on as another one. -/
theorem append (hearly : Trail inside entrance drift before early middle)
    (hlate : Trail inside entrance drift middle late after) :
    Trail inside entrance drift before (early ++ late) after := by
  induction hearly with
  | rest hmove => exact hlate.move hmove
  | pass hmove houtside _ ih => exact .pass hmove houtside (ih hlate)
  | excursion hmove hentrance hinside _ ih =>
      rw [List.cons_append, List.append_assoc]
      exact .excursion hmove hentrance hinside (ih hlate)

/-- A trail may end with a drift. -/
theorem settle (h : Trail inside entrance drift before early middle)
    (hmove : drift.rel middle after) : Trail inside entrance drift before early after := by
  have hall := h.append (.rest hmove)
  rwa [List.append_nil] at hall

/-- What a trail says of two successive visits. -/
def Link (inside entrance : NodeId → Prop) (drift : Drift G) (one next : Visit G) : Prop :=
  ¬ inside one.node.id →
    (inside next.node.id → entrance next.node.id) ∧ drift.rel one.agent next.agent

/-- Along a trail every two successive visits are linked. -/
theorem is_chain (h : Trail inside entrance drift before late after) (one : Visit G)
    (hone : ¬ inside one.node.id → drift.rel one.agent before) :
    (one :: late).IsChain (Link inside entrance drift) := by
  induction h generalizing one with
  | rest hmove => exact .singleton one
  | pass hmove houtside _ ih =>
      refine List.isChain_cons_cons.2 ⟨fun hout => ?_, ih _ fun _ => drift.refl _⟩
      exact ⟨fun hin => absurd hin houtside, drift.trans (hone hout) hmove⟩
  | @excursion before back after visit within later hmove hentrance hinside hlater ih =>
      refine List.isChain_cons_cons.2
        ⟨fun hout => ⟨fun _ => hentrance, drift.trans (hone hout) hmove⟩, ?_⟩
      -- Inside the part nothing is claimed of the next visit.
      clear hmove hentrance hone
      induction within generalizing visit with
      | nil => exact ih visit fun hout => absurd (hinside visit List.mem_cons_self) hout
      | cons other within ihWithin =>
          refine List.isChain_cons_cons.2 ⟨fun hout => ?_, ?_⟩
          · exact absurd (hinside visit List.mem_cons_self) hout
          · exact ihWithin fun next hnext => hinside next (List.mem_cons_of_mem visit hnext)

/-- Where there are no excursions, every visit finds the agent drifted. -/
theorem rel_of_mem (h : Trail (fun _ => False) entrance drift before late after) {visit : Visit G}
    (hvisit : visit ∈ late) : drift.rel before visit.agent := by
  induction h with
  | rest => cases hvisit
  | pass hmove _ _ ih =>
      rcases List.mem_cons.1 hvisit with rfl | hvisit
      · exact hmove
      · exact drift.trans hmove (ih hvisit)
  | excursion _ _ hinside => exact (hinside _ List.mem_cons_self).elim

end Trail

/-- From a visit outside a part to a later one between which the entrance is not visited, the
agent drifts. -/
theorem drift_of_is_chain {one last : Visit G} {between late : List (Visit G)}
    (h : (one :: (between ++ last :: late)).IsChain (Trail.Link inside entrance drift))
    (hone : ¬ inside one.node.id) (hbetween : ∀ visit ∈ between, ¬ entrance visit.node.id) :
    drift.rel one.agent last.agent := by
  induction between generalizing one with
  | nil => exact ((List.isChain_cons_cons.1 h).1 hone).2
  | cons next between ih =>
      obtain ⟨hlink, hrest⟩ := List.isChain_cons_cons.1 h
      have hnext : ¬ inside next.node.id := fun hin =>
        hbetween next List.mem_cons_self ((hlink hone).1 hin)
      exact drift.trans (hlink hone).2
        (ih hrest hnext fun visit hvisit => hbetween visit (List.mem_cons_of_mem next hvisit))

/-- The same for two visits of a trail. -/
theorem Trail.drift_between {before after : Agent G} {early between late : List (Visit G)}
    {one last : Visit G}
    (h : Trail inside entrance drift before (early ++ one :: (between ++ last :: late)) after)
    (hone : ¬ inside one.node.id) (hbetween : ∀ visit ∈ between, ¬ entrance visit.node.id) :
    drift.rel one.agent last.agent := by
  have hchain := h.is_chain ⟨one.node, before⟩ fun _ => drift.refl before
  exact drift_of_is_chain hchain.tail.right_of_append hone hbetween

/-! ## The trail of an execution -/

variable {rules : Rules G} {kept : NodeId → Bool} {elapsed : Nat}

/-- A node lets an agent drift outside a part of a tree. -/
structure Drift.Fits (drift : Drift G) (inside entrance : NodeId → Prop) (rules : Rules G)
    (kept : NodeId → Bool) (elapsed : Nat) (node : Node G) : Prop where
  inner : ¬ inside node.id → node.family ≠ .action → drift.passage.Serves node.id
  leaf : ¬ inside node.id → node.family = .action →
    ∀ agent, drift.rel agent (node.execute rules kept elapsed agent).agent
  entrances : ¬ inside node.id → ∀ child ∈ node.children, inside child.id → entrance child.id
  within : inside node.id → ∀ child ∈ node.children, inside child.id

/-- Threaded turns have a trail if each of them does. -/
theorem Threads.trail {turns : List (Visit G)} {before after : Agent G} {notes : List Note}
    (h : Threads rules kept elapsed turns before notes after)
    (hturns : ∀ turn ∈ turns, Trail inside entrance drift turn.agent
      (turn.node.visits rules kept elapsed turn.agent)
        (turn.node.execute rules kept elapsed turn.agent).agent) :
    Trail inside entrance drift before
      (turns.flatMap fun turn => turn.node.visits rules kept elapsed turn.agent) after := by
  induction turns generalizing before notes with
  | nil =>
      obtain ⟨-, rfl⟩ := h
      exact .rest (drift.refl after)
  | cons turn rest ih =>
      obtain ⟨rfl, late, -, hrest⟩ := h
      rw [List.flatMap_cons]
      exact (hturns turn List.mem_cons_self).append
        (ih hrest fun other hother => hturns other (List.mem_cons_of_mem turn hother))

namespace Node

/-- An execution at an entrance is one excursion. -/
theorem visits_excursion {node : Node G}
    (hfits : ∀ other ∈ node.preorder, drift.Fits inside entrance rules kept elapsed other)
    (hinside : inside node.id) (hentrance : entrance node.id) (agent after : Agent G) :
    Trail inside entrance drift agent (node.visits rules kept elapsed agent) after := by
  have hall : ∀ visit ∈ node.visits rules kept elapsed agent, inside visit.node.id :=
    fun visit hvisit => forall_preorder hinside
      (fun parent hparent hin => (hfits parent hparent).within hin) _ (visits_mem hvisit)
  rw [visits_eq] at hall ⊢
  have htrail := Trail.excursion (drift.refl agent) hentrance hall (.rest (drift.refl after))
  rwa [List.append_nil] at htrail

/-- The trail of an execution. -/
theorem visits_trail (hrules : rules.Modest) {node : Node G}
    (hfits : ∀ other ∈ node.preorder, drift.Fits inside entrance rules kept elapsed other)
    (hself : inside node.id → entrance node.id) (agent : Agent G) :
    Trail inside entrance drift agent (node.visits rules kept elapsed agent)
      (node.execute rules kept elapsed agent).agent := by
  induction node using by_family generalizing agent with
  | inner node hinner ih =>
      -- A part that is entered is left again before the trail goes on.
      by_cases hin : inside node.id
      · exact visits_excursion hfits hin (hself hin) agent _
      have hnode := hfits node node.self_mem_preorder
      have hserves := hnode.inner hin hinner
      obtain ⟨notes, reached, late, last, status, heq, hearly, hturns, hlate⟩ :=
        execute_threads kept elapsed hinner hserves.toTends
          (node.open_keeps hrules hserves.toGates) agent
      have hchildren : ∀ turn ∈ node.turns rules kept elapsed agent, Trail inside entrance drift
          turn.agent (turn.node.visits rules kept elapsed turn.agent)
            (turn.node.execute rules kept elapsed turn.agent).agent := by
        intro turn hturn
        have hchild := turns_mem hturn
        exact ih turn.node hchild
          (fun other hother => hfits other (preorder_trans (child_mem_preorder hchild) hother))
          (hnode.entrances hin turn.node hchild) turn.agent
      rw [heq, visits_eq]
      exact .pass (drift.refl agent) hin (((hturns.trail hchildren).move hearly).settle
        (drift.trans hlate (hserves.conclude last status)))
  | leaf node hleaf =>
      by_cases hin : inside node.id
      · exact visits_excursion hfits hin (hself hin) agent _
      · rw [visits_leaf hleaf]
        exact .pass (drift.refl agent) hin
          (.rest ((hfits node node.self_mem_preorder).leaf hin hleaf agent))

end Node

end BehaviorTree
