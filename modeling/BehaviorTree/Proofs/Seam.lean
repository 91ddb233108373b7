import BehaviorTree.Proofs.Graft
import BehaviorTree.Proofs.Ungated

/-!
# Seams

A composite without a gate that stands directly in another one of its kind, also without a gate,
can be replaced by its children. `Seam.Flattens` relates a node to the node in which this was done
in one place, the seam.

At a seam two stored positions stand against one. `Agent.Linked` is the law between them: while the
outer composite runs, the position in the flattened list is the place of the pair of positions in
the nested ones (`Seam.place`).

A walk through the outer composite and one through the flattened list start from places that answer
to each other (`Seam.Ready`) and stop at such places again (`Seam.Meets`); this takes the walks
apart into what stands in front of the inner composite, its own children and what stands behind it
(`Seam.walk_meets`). So the execution of the outer composite keeps the law (`Seam.outer_accords`).
-/

namespace BehaviorTree

variable {G : Game} {rules : Rules G} {kept kept' : NodeId → Bool} {elapsed : Nat}

/-- A place where a composite stands directly in another one: their identities, the position of
the inner one among the children of the outer one, and the number of its own children. -/
structure Seam where
  outer : NodeId
  inner : NodeId
  position : Nat
  width : Nat

namespace Seam

/-- At a seam of a node the children of the inner composite take its place. -/
inductive Flattens : Seam → Node G → Node G → Prop where
  | here {outer inner : NodeId} {kind : CompositeKind} {advance : Status}
      (hkind : kind.advance? = some advance) (front middle back : List (Node G)) :
      Flattens ⟨outer, inner, front.length, middle.length⟩
        (.composite ⟨outer, none⟩ kind (front ++ .composite ⟨inner, none⟩ kind middle :: back))
        (.composite ⟨outer, none⟩ kind (front ++ (middle ++ back)))
  | composite {seam : Seam} {child child' : Node G} (h : Flattens seam child child') (head : Head G)
      (kind : CompositeKind) (front back : List (Node G)) :
      Flattens seam (.composite head kind (front ++ child :: back))
        (.composite head kind (front ++ child' :: back))
  | decorator {seam : Seam} {child child' : Node G} (h : Flattens seam child child') (head : Head G)
      (kind : DecoratorKind) :
      Flattens seam (.decorator head kind (some child)) (.decorator head kind (some child'))

/-- The identities of the two composites. -/
def ids (seam : Seam) : List NodeId := [seam.outer, seam.inner]

end Seam

/-! ## Walks through a seam -/

namespace Seam

/-- The place in the flattened list that answers to a position in the outer list and, at the seam,
one in the inner list. -/
def place (seam : Seam) (outer inner : Nat) : Nat :=
  if outer < seam.position then outer
  else if outer = seam.position then seam.position + inner
  else outer + seam.width - 1

/-- Where walks on the two sides of a seam start together. -/
inductive Ready (seam : Seam) (one : Agent G) : Nat → Nat → Prop where
  | before {start : Nat} (hstart : start ≤ seam.position)
      (hfresh : one.statusOf seam.inner ≠ .running) : Ready seam one start start
  | within (hrunning : one.statusOf seam.inner = .running)
      (hwidth : one.resumeIndexOf seam.inner < seam.width) :
      Ready seam one seam.position (seam.position + one.resumeIndexOf seam.inner)
  | behind {start : Nat} (hstart : seam.position < start)
      (hfresh : one.statusOf seam.inner ≠ .running) :
      Ready seam one start (start + seam.width - 1)

/-- Where walks on the two sides of a seam stop together. -/
inductive Meets (seam : Seam) (one : Agent G) :
    Option (Nat × Status) → Option (Nat × Status) → Prop where
  | through (hfresh : one.statusOf seam.inner ≠ .running) : Meets seam one none none
  | aside {index : Nat} (hindex : index ≠ seam.position)
      (hfresh : one.statusOf seam.inner ≠ .running) (status : Status) :
      Meets seam one (some (index, status)) (some (seam.place index 0, status))
  | within {index : Nat} (hindex : index < seam.width) {status : Status}
      (hposition : one.resumeIndexOf seam.inner = index)
      (hstatus : one.statusOf seam.inner = status) :
      Meets seam one (some (seam.position, status)) (some (seam.position + index, status))

/-- What two walks have in common that stop together. -/
structure Meeting (seam : Seam) (tree flat : Tree G)
    (one other : Outcome G (Option (Nat × Status))) : Prop where
  calls : calls other.notes = calls one.notes
  beside : one.agent.Beside seam.ids tree flat other.agent
  meets : seam.Meets one.agent one.value other.value

/-- The children of the two composites at a seam of a tree. -/
structure Around (seam : Seam) (tree flat : Tree G) (front middle back : List (Node G)) :
    Prop where
  position : front.length = seam.position
  width : middle.length = seam.width
  distinct : seam.inner ≠ seam.outer
  front : ∀ child ∈ front, child.Aloof seam.ids tree flat
  middle : ∀ child ∈ middle, child.Aloof seam.ids tree flat
  back : ∀ child ∈ back, child.Aloof seam.ids tree flat

variable {seam : Seam} {tree flat : Tree G} {front middle back : List (Node G)} {advance : Status}
  {kind : CompositeKind} {one other one' : Agent G}

/-- The outer composite belongs to the seam. -/
theorem outer_mem_ids (seam : Seam) : seam.outer ∈ seam.ids := List.mem_cons_self

/-- The inner composite belongs to the seam. -/
theorem inner_mem_ids (seam : Seam) : seam.inner ∈ seam.ids :=
  List.mem_cons_of_mem _ List.mem_cons_self

/-- What the engine keeps for the two composites is their own. -/
theorem among_inner (seam : Seam) {slot : Slot G} (h : slot ≠ .currentAction) :
    Region.among seam.ids slot seam.inner.raw := Region.among_of_mem seam.inner_mem_ids h

/-- What is kept under the outer composite does not lie beyond the seam. -/
theorem not_beyond_outer (seam : Seam) {slot : Slot G} (h : slot ≠ .currentAction) :
    ¬ Region.beyond seam.ids slot seam.outer.raw := Region.not_beyond seam.outer_mem_ids h

/-- What is kept under the inner composite does not lie beyond the seam. -/
theorem not_beyond_inner (seam : Seam) {slot : Slot G} (h : slot ≠ .currentAction) :
    ¬ Region.beyond seam.ids slot seam.inner.raw := Region.not_beyond seam.inner_mem_ids h

/-- An inner composite that is not running does not run after what is done beyond the seam. -/
theorem fresh_of_spares (h : one.Spares (.beyond seam.ids) one')
    (hfresh : one.statusOf seam.inner ≠ .running) : one'.statusOf seam.inner ≠ .running := by
  rw [h.status_of_eq (seam.not_beyond_inner (by simp))]
  exact hfresh

/-- Walks stay together if what came before them made the same calls. -/
theorem Meeting.after {later later' : Outcome G (Option (Nat × Status))}
    (h : Meeting seam tree flat later later') {early early' : List Note}
    (hearly : BehaviorTree.calls early' = BehaviorTree.calls early) :
    Meeting seam tree flat ⟨later.value, later.agent, early ++ later.notes⟩
      ⟨later'.value, later'.agent, early' ++ later'.notes⟩ where
  calls := by rw [calls_append, calls_append, hearly, h.calls]
  beside := h.beside
  meets := h.meets

variable (kept kept' elapsed) in
/-- Away from the seam walks go together and leave the composites of the seam alone. -/
theorem walk_aloof (hrules : rules.Local [tree]) (advance : Status) {children : List (Node G)}
    (h : ∀ child ∈ children, child.Aloof seam.ids tree flat) (skip index : Nat)
    (hbeside : one.Beside seam.ids tree flat other) :
    let stop := Node.walk rules kept elapsed advance skip index children one
    let stop' := Node.walk rules kept' elapsed advance skip index children other
    stop'.value = stop.value ∧ calls stop'.notes = calls stop.notes ∧
      stop.agent.Beside seam.ids tree flat stop'.agent ∧
      one.Spares (.beyond seam.ids) stop.agent := by
  have hwalk : (Node.walk rules kept elapsed advance skip index children).AccordsWhile
      (fun _ => True) (Agent.Joined seam.ids tree flat (Agent.Since seam.ids one other))
      (Node.walk rules kept' elapsed advance skip index children) :=
    Node.walk_accords advance (List.forall₂_same.2 fun child hchild =>
      (h child hchild).accords hrules (Agent.since_local seam.ids one other)) skip index
  obtain ⟨hvalue, hcalls, hjoined⟩ := hwalk.always one other ⟨hbeside, .refl one, .refl other⟩
  exact ⟨hvalue, hcalls, hjoined.toBeside, hjoined.law.1⟩

/-- Behind the seam the walks differ in how they count. -/
theorem back_meets (hrules : rules.Local [tree]) (advance : Status)
    (hback : ∀ child ∈ back, child.Aloof seam.ids tree flat) (skip : Nat)
    (hbeside : one.Beside seam.ids tree flat other) (hfresh : one.statusOf seam.inner ≠ .running) :
    Meeting seam tree flat
      (Node.walk rules kept elapsed advance skip (seam.position + 1) back one)
      (Node.walk rules kept' elapsed advance skip (seam.position + seam.width) back other) := by
  obtain ⟨hvalue, hcalls, hafter, hspares⟩ :=
    walk_aloof kept kept' elapsed hrules advance hback skip 0 hbeside
  rw [Node.walk_counted advance skip (seam.position + 1),
    Node.walk_counted advance skip (seam.position + seam.width), hvalue]
  refine ⟨hcalls, hafter, ?_⟩
  have hfresh' := fresh_of_spares hspares hfresh
  cases (Node.walk rules kept elapsed advance skip 0 back one).value with
  | none => exact .through hfresh'
  | some stop =>
      have hplace : stop.1 + (seam.position + seam.width) =
          seam.place (stop.1 + (seam.position + 1)) 0 := by
        rw [place, if_neg (by omega), if_neg (by omega)]
        omega
      dsimp only [Option.map_some]
      rw [hplace]
      exact .aside (by omega) hfresh' stop.2

variable (kept kept' elapsed) in
/-- An execution of the inner composite and a walk through its children do the same. -/
theorem inner_execute (hrules : rules.Local [tree]) (hkind : kind.advance? = some advance)
    (hmiddle : ∀ child ∈ middle, child.Aloof seam.ids tree flat)
    (hbeside : one.Beside seam.ids tree flat other) :
    let start := (one.begun seam.inner).resumeIndexOf seam.inner
    let inner := (Node.composite ⟨seam.inner, none⟩ kind middle).execute rules kept elapsed one
    let stop := Node.walk rules kept' elapsed advance start 0 middle other
    inner.value = (stop.value.map Prod.snd).getD advance ∧
      calls stop.notes = calls inner.notes ∧ inner.agent.Beside seam.ids tree flat stop.agent ∧
      inner.agent.statusOf seam.inner = inner.value ∧
      inner.agent.resumeIndexOf seam.inner = (stop.value.map Prod.fst).getD 0 := by
  intro start inner stop
  have hbegun : (one.begun seam.inner).Beside seam.ids tree flat other :=
    hbeside.apart (one.begun_stands seam.inner) (.refl other) (one.selection_begun seam.inner) rfl
      (one.begun_spares (seam.among_inner (by simp))) (.refl other)
  obtain ⟨hvalue, hcalls, hafter, -⟩ :=
    walk_aloof kept kept' elapsed hrules advance hmiddle start 0 hbegun
  have hinner : inner = _ := Node.execute_ungated hkind middle one
  rw [hinner]
  dsimp only
  rw [← hvalue]
  refine ⟨rfl, ?_, ?_, Agent.status_of_closed _ seam.inner advance _,
    Agent.resume_index_of_closed _ seam.inner advance _⟩
  · rw [calls_append, hcalls]
    exact (List.append_nil _).symm
  · exact hafter.apart (Agent.closed_stands _ seam.inner advance _) (.refl stop.agent)
      (Agent.selection_closed _ seam.inner advance _) rfl
      (Agent.closed_spares _ advance _ (seam.among_inner (by simp)) (seam.among_inner (by simp)))
      (.refl stop.agent)

/-- From the inner composite on one side, and from a place among its children on the other, the
walks go on together. -/
theorem inner_meets (hrules : rules.Local [tree])
    (haround : Around seam tree flat front middle back)
    (hkind : kind.advance? = some advance) {start : Nat}
    (hstart : (one.begun seam.inner).resumeIndexOf seam.inner = start) (hle : start ≤ middle.length)
    (hbeside : one.Beside seam.ids tree flat other) :
    Meeting seam tree flat
      (Node.walk rules kept elapsed advance 0 seam.position
        (.composite ⟨seam.inner, none⟩ kind middle :: back) one)
      (Node.walk rules kept' elapsed advance start seam.position (middle ++ back) other) := by
  obtain ⟨hvalue, hcalls, hafter, hstatus, hposition⟩ :=
    inner_execute kept kept' elapsed hrules hkind haround.middle hbeside
  rw [hstart] at hvalue hcalls hafter hposition
  have hcounted : Node.walk rules kept' elapsed advance start seam.position middle other = _ :=
    Node.walk_counted advance start seam.position middle other
  cases hstop : (Node.walk rules kept' elapsed advance start 0 middle other).value with
  | none =>
      -- The inner composite lets the outer one go on to what stands behind it.
      have hadvance : (Node.execute rules kept elapsed
          (.composite ⟨seam.inner, none⟩ kind middle) one).value = advance := by
        rw [hvalue, hstop]
        rfl
      rw [Node.walk_advance hadvance, Node.walk_append_of_none (by rw [hcounted, hstop]; rfl),
        hcounted, Nat.sub_eq_zero_of_le hle, haround.width]
      refine (back_meets hrules advance haround.back 0 hafter ?_).after hcalls
      rw [hstatus, hadvance]
      exact CompositeKind.advance_ne_running hkind
  | some stop =>
      obtain ⟨hindex, hstops⟩ := Node.walk_stops hstop
      have hhalted : (Node.execute rules kept elapsed
          (.composite ⟨seam.inner, none⟩ kind middle) one).value = stop.2 := by
        rw [hvalue, hstop]
        rfl
      rw [Node.walk_stop (by rw [hhalted]; exact hstops),
        Node.walk_append_of_some (by rw [hcounted, hstop]; rfl), hcounted]
      refine ⟨hcalls, hafter, ?_⟩
      dsimp only
      rw [hstop, hhalted, Option.map_some, Nat.add_comm stop.1]
      rw [hstop] at hposition
      refine .within ?_ hposition (hstatus.trans hhalted)
      rw [← haround.width]
      omega

/-- A walk that starts at the seam or behind it passes over what is in front. -/
theorem Around.walk_past_front (haround : Around seam tree flat front middle back)
    (advance : Status) (skip : Nat) (rest : List (Node G)) :
    Node.walk rules kept elapsed advance (seam.position + skip) 0 (front ++ rest) =
      Node.walk rules kept elapsed advance skip seam.position rest := by
  rw [← haround.position, Node.walk_past, Nat.zero_add]

/-- Walks that start together through the children on the two sides of a seam stop together. -/
theorem walk_meets (hrules : rules.Local [tree]) (haround : Around seam tree flat front middle back)
    (hkind : kind.advance? = some advance) {start start' : Nat}
    (hready : Ready seam one start start')
    (hbeside : one.Beside seam.ids tree flat other) :
    Meeting seam tree flat
      (Node.walk rules kept elapsed advance start 0
        (front ++ .composite ⟨seam.inner, none⟩ kind middle :: back) one)
      (Node.walk rules kept' elapsed advance start' 0 (front ++ (middle ++ back)) other) := by
  cases hready with
  | before hstart hfresh =>
      obtain ⟨hvalue, hcalls, hafter, hspares⟩ :=
        walk_aloof kept kept' elapsed hrules advance haround.front start 0 hbeside
      have hfresh' := fresh_of_spares hspares hfresh
      cases hstop : (Node.walk rules kept elapsed advance start 0 front one).value with
      | none =>
          rw [Node.walk_append_of_none hstop, Node.walk_append_of_none (hvalue.trans hstop),
            Nat.zero_add, haround.position, Nat.sub_eq_zero_of_le hstart]
          exact (inner_meets hrules haround hkind (Agent.resume_index_of_begun_of_fresh hfresh')
            (Nat.zero_le _) hafter).after hcalls
      | some stop =>
          -- Both walks stop in front of the seam, at the same child.
          obtain ⟨hindex, -⟩ := Node.walk_stops hstop
          rw [Nat.zero_add, haround.position] at hindex
          have hplace : seam.place stop.1 0 = stop.1 := if_pos hindex
          rw [Node.walk_append_of_some hstop, Node.walk_append_of_some (hvalue.trans hstop)]
          refine ⟨hcalls, hafter, ?_⟩
          rw [hvalue, hstop]
          have haside := Meets.aside (Nat.ne_of_lt hindex) hfresh' stop.2
          rwa [hplace] at haside
  | within hrunning hwidth =>
      -- The outer walk starts at the inner composite, which goes on where it stands.
      have houter : Node.walk rules kept elapsed advance seam.position 0
          (front ++ .composite ⟨seam.inner, none⟩ kind middle :: back) = _ :=
        haround.walk_past_front advance 0 _
      rw [houter, haround.walk_past_front]
      exact inner_meets hrules haround hkind (Agent.resume_index_of_begun_of_running hrunning)
        (haround.width ▸ hwidth.le) hbeside
  | behind hstart hfresh =>
      -- The flat walk passes over the inner children, too.
      obtain ⟨skip, rfl⟩ := Nat.exists_eq_add_of_lt hstart
      have hstart' : seam.position + skip + 1 + seam.width - 1 =
          seam.position + (middle.length + skip) := by
        rw [haround.width]
        omega
      rw [hstart', haround.walk_past_front, Node.walk_past, haround.width, Nat.add_assoc,
        haround.walk_past_front]
      exact back_meets hrules advance haround.back skip hbeside hfresh

end Seam

/-! ## The law at a seam -/

/-- The law at a seam: the outer composite has the same status on both sides, the inner one runs
while the outer one is at it and no longer, and while the outer composite runs the two agents are at
places that answer to each other. -/
structure Agent.Linked (seam : Seam) (one other : Agent G) : Prop where
  status : other.statusOf seam.outer = one.statusOf seam.outer
  inner : one.statusOf seam.inner = .running →
    one.statusOf seam.outer = .running ∧ one.resumeIndexOf seam.outer = seam.position
  within : one.statusOf seam.outer = .running → one.resumeIndexOf seam.outer = seam.position →
    one.statusOf seam.inner = .running ∧ one.resumeIndexOf seam.inner < seam.width
  place : one.statusOf seam.outer = .running → other.resumeIndexOf seam.outer =
    seam.place (one.resumeIndexOf seam.outer) (one.resumeIndexOf seam.inner)

namespace Seam

variable {seam : Seam} {tree flat : Tree G} {front middle back : List (Node G)} {advance : Status}
  {kind : CompositeKind} {one other one' : Agent G}

/-- The law at a seam is about what is kept under its two composites alone. -/
theorem linked_local (seam : Seam) : LocalLaw seam.ids (Agent.Linked (G := G) seam) := by
  refine ⟨fun {one other one' other'} h hone hother => ?_⟩
  have hinner := hone.status_of_eq (seam.not_beyond_inner (by simp))
  have houter := hone.status_of_eq (seam.not_beyond_outer (by simp))
  have hinner' := hone.resume_index_of_eq (seam.not_beyond_inner (by simp))
  have houter' := hone.resume_index_of_eq (seam.not_beyond_outer (by simp))
  have hflat := hother.resume_index_of_eq (seam.not_beyond_outer (by simp))
  constructor
  · rw [houter, hother.status_of_eq (seam.not_beyond_outer (by simp))]
    exact h.status
  · rw [hinner, houter, houter']
    exact h.inner
  · rw [hinner, hinner', houter, houter']
    exact h.within
  · rw [hinner', houter, houter', hflat]
    exact h.place

/-- What is kept under the outer composite is not kept under the inner one. -/
theorem inner_of_spares (hne : seam.inner ≠ seam.outer)
    (h : one.Spares (fun _ key => key = seam.outer.raw) one') :
    one'.statusOf seam.inner = one.statusOf seam.inner ∧
      one'.resumeIndexOf seam.inner = one.resumeIndexOf seam.inner :=
  ⟨h.status_of_eq (mt NodeId.raw_inj.1 hne), h.resume_index_of_eq (mt NodeId.raw_inj.1 hne)⟩

/-- Under the law the outer composite is entered at places that answer to each other. -/
theorem ready_of_linked (hne : seam.inner ≠ seam.outer) (h : one.Linked seam other) :
    Ready seam (one.begun seam.outer) ((one.begun seam.outer).resumeIndexOf seam.outer)
      ((other.begun seam.outer).resumeIndexOf seam.outer) := by
  have hbegun : one.Spares (fun _ key => key = seam.outer.raw) (one.begun seam.outer) :=
    one.begun_spares rfl
  obtain ⟨hstatus, hposition⟩ := inner_of_spares hne hbegun
  by_cases hrunning : one.statusOf seam.outer = .running
  · rw [Agent.resume_index_of_begun_of_running hrunning,
      Agent.resume_index_of_begun_of_running (h.status.trans hrunning), h.place hrunning]
    by_cases hinner : one.statusOf seam.inner = .running
    · obtain ⟨-, hat⟩ := h.inner hinner
      rw [hat, place, if_neg (Nat.lt_irrefl _), if_pos rfl, ← hposition]
      refine .within (hstatus.trans hinner) ?_
      rw [hposition]
      exact (h.within hrunning hat).2
    · have hne' : one.resumeIndexOf seam.outer ≠ seam.position := fun hat =>
        hinner (h.within hrunning hat).1
      have hfresh : (one.begun seam.outer).statusOf seam.inner ≠ .running := by rwa [hstatus]
      rcases Nat.lt_or_gt_of_ne hne' with hbefore | hbehind
      · rw [place, if_pos hbefore]
        exact .before (Nat.le_of_lt hbefore) hfresh
      · rw [place, if_neg (Nat.lt_asymm hbehind), if_neg hne']
        exact .behind hbehind hfresh
  · rw [Agent.resume_index_of_begun_of_fresh hrunning,
      Agent.resume_index_of_begun_of_fresh (by rwa [h.status])]
    refine .before (Nat.zero_le _) ?_
    rw [hstatus]
    exact fun hinner => hrunning (h.inner hinner).1

/-- Walks that stop together come out with the same status. -/
theorem Meets.status_eq {stop stop' : Option (Nat × Status)} (h : Meets seam one stop stop')
    (advance : Status) :
    (stop'.map Prod.snd).getD advance = (stop.map Prod.snd).getD advance := by
  cases h <;> rfl

/-- Walks that stop together leave agents under the law once they are settled. -/
theorem linked_of_meets (hkind : kind.advance? = some advance) (hne : seam.inner ≠ seam.outer)
    {stop stop' : Option (Nat × Status)} (h : Meets seam one stop stop') :
    (one.closed seam.outer advance stop).Linked seam (other.closed seam.outer advance stop') := by
  have hclosed : one.Spares (fun _ key => key = seam.outer.raw)
      (one.closed seam.outer advance stop) := one.closed_spares advance stop rfl rfl
  obtain ⟨hstatus, hposition⟩ := inner_of_spares hne hclosed
  have hstays := CompositeKind.advance_ne_running hkind
  constructor <;> rw [Agent.status_of_closed]
  case status =>
    rw [Agent.status_of_closed]
    exact h.status_eq advance
  case inner =>
    rw [hstatus, Agent.resume_index_of_closed]
    cases h with
    | through hfresh => exact fun hinner => absurd hinner hfresh
    | aside hindex hfresh status => exact fun hinner => absurd hinner hfresh
    | within hindex hat hlast => exact fun hinner => ⟨hlast.symm.trans hinner, rfl⟩
  case within =>
    rw [hstatus, hposition, Agent.resume_index_of_closed]
    cases h with
    | through hfresh => exact fun hrunning => absurd hrunning hstays
    | aside hindex hfresh status => exact fun _ hat => absurd hat hindex
    | within hindex hat hlast =>
        exact fun hrunning _ => ⟨hlast.trans hrunning, hat.trans_lt hindex⟩
  -- Only a walk that stopped at the seam leaves the inner position to be counted in.
  case place =>
    rw [Agent.resume_index_of_closed, Agent.resume_index_of_closed, hposition]
    cases h with
    | through hfresh => exact fun hrunning => absurd hrunning hstays
    | aside hindex hfresh status =>
        intro _
        simp only [Option.map_some, Option.getD_some, place, if_neg hindex]
    | within hindex hat hlast =>
        intro _
        rw [hat]
        simp [place]

/-- Walks that stop together are settled in accord. -/
theorem Meeting.settled {stop stop' : Outcome G (Option (Nat × Status))}
    (h : Meeting seam tree flat stop stop') (hkind : kind.advance? = some advance)
    (hne : seam.inner ≠ seam.outer) :
    let status := (stop.value.map Prod.snd).getD advance
    let status' := (stop'.value.map Prod.snd).getD advance
    status' = status ∧
      BehaviorTree.calls (stop'.notes ++ [.executed seam.outer status']) =
        BehaviorTree.calls (stop.notes ++ [.executed seam.outer status]) ∧
      Agent.Joined seam.ids tree flat (Agent.Linked seam)
        (stop.agent.closed seam.outer advance stop.value)
        (stop'.agent.closed seam.outer advance stop'.value) := by
  intro status status'
  have hstatus : status' = status := h.meets.status_eq advance
  refine ⟨hstatus, ?_, ?_, linked_of_meets hkind hne h.meets⟩
  · rw [calls_append, calls_append, h.calls]
    rfl
  · exact h.beside.closed seam.outer_mem_ids seam.outer_mem_ids advance advance _ _

/-- The outer composite is executed in accord with the one that has the children of both. -/
theorem outer_accords {fair : NodeId × Status → Prop} (hrules : rules.Local [tree])
    (haround : Around seam tree flat front middle back) (hkind : kind.advance? = some advance) :
    Node.InAccord fair rules kept kept' elapsed
      (Agent.Joined seam.ids tree flat (Agent.Linked seam))
      (.composite ⟨seam.outer, none⟩ kind
        (front ++ .composite ⟨seam.inner, none⟩ kind middle :: back))
      (.composite ⟨seam.outer, none⟩ kind (front ++ (middle ++ back))) := by
  refine Play.Accords.guarded fun one other h => ?_
  have hbegun : (one.begun seam.outer).Beside seam.ids tree flat (other.begun seam.outer) :=
    h.toBeside.begun seam.outer_mem_ids seam.outer_mem_ids
  have hready := ready_of_linked haround.distinct h.law
  rw [Node.execute_ungated hkind, Node.execute_ungated hkind]
  exact (walk_meets hrules haround hkind hready hbegun).settled hkind haround.distinct

end Seam

end BehaviorTree
