import BehaviorTree.Proofs.Discretion

/-!
# Activations of sequences and priorities

An activation of a sequence or priority lasts from a fresh entry to the first execution that
does not return running, however many updates lie between. `activation_in_order` says which
children it executes: the first one first, a running child again, and after each child that lets
the node go on the next one.

Within one execution this is a matter of the walk (`Node.walk_stretch`). From one execution to
the next it holds because nothing but the node's own executions changes its last status and its
position (`Command.play_executions_linked`), whatever else is executed in between.
-/

namespace BehaviorTree

variable {G : Game} {rules : Rules G} {kept : NodeId → Bool} {elapsed : Nat}
  {forest : List (Tree G)}

/-! ## The steps of an execution -/

namespace Node

variable (rules : Rules G) (kept : NodeId → Bool) (elapsed : Nat)

/-- The children that a walk executes, each with its position and its result. -/
def walkSteps (advance : Status) : Nat → Nat → List (Node G) → Agent G → List (Nat × Status)
  | _, _, [], _ => []
  | skip + 1, index, _ :: rest, agent => walkSteps advance skip (index + 1) rest agent
  | 0, index, child :: rest, agent =>
      let outcome := child.execute rules kept elapsed agent
      (index, outcome.value) ::
        if outcome.value = advance then walkSteps advance 0 (index + 1) rest outcome.agent else []

/-- The children that an execution of a sequence or priority executes, each with its position
and its result. Other nodes do not go from child to child. -/
def steps : Node G → Agent G → List (Nat × Status)
  | node@(composite head kind children), agent =>
      let near := node.approach rules agent
      match kind.advance? with
      | some advance =>
          if near.value then
            walkSteps rules kept elapsed advance (near.agent.resumeIndexOf head.id) 0 children
              near.agent
          else []
      | none => []
  | decorator _ _ _, _ | timed _ _ _, _ | action _ _ _ _, _ => []

variable {rules kept elapsed}

/-- The steps of a walk are its turns: each tells of the child at its position. -/
theorem walk_steps_turns (advance : Status) (skip index : Nat) (children : List (Node G))
    (agent : Agent G) :
    List.Forall₂ (fun (step : Nat × Status) (turn : Visit G) =>
        index ≤ step.1 ∧ children[step.1 - index]? = some turn.node ∧
          (turn.node.execute rules kept elapsed turn.agent).value = step.2)
      (walkSteps rules kept elapsed advance skip index children agent)
      (walkTurns rules kept elapsed advance skip children agent) := by
  induction children generalizing skip index agent with
  | nil => cases skip <;> exact .nil
  | cons child rest ih =>
      have hrest : ∀ skip agent, List.Forall₂ (fun (step : Nat × Status) (turn : Visit G) =>
          index ≤ step.1 ∧ (child :: rest)[step.1 - index]? = some turn.node ∧
            (turn.node.execute rules kept elapsed turn.agent).value = step.2)
          (walkSteps rules kept elapsed advance skip (index + 1) rest agent)
          (walkTurns rules kept elapsed advance skip rest agent) := by
        intro skip agent
        refine (ih skip (index + 1) agent).imp ?_
        rintro step turn ⟨hindex, hchild, hvalue⟩
        have hplace : step.1 - index = step.1 - (index + 1) + 1 := by omega
        rw [hplace, List.getElem?_cons_succ]
        exact ⟨by omega, hchild, hvalue⟩
      cases skip with
      | succ skip => exact hrest skip agent
      | zero =>
          refine .cons ⟨Nat.le_refl index, by simp, rfl⟩ ?_
          split
          · exact hrest 0 _
          · exact .nil

/-- The steps of an execution are its turns: each tells of the child at its position. -/
theorem steps_turns {node : Node G} (hwalks : node.Walks) (agent : Agent G) :
    List.Forall₂ (fun (step : Nat × Status) (turn : Visit G) =>
        node.children[step.1]? = some turn.node ∧
          (turn.node.execute rules kept elapsed turn.agent).value = step.2)
      (node.steps rules kept elapsed agent) (node.turns rules kept elapsed agent) := by
  cases node with
  | composite head kind children =>
      obtain ⟨advance, hadvance⟩ := Option.ne_none_iff_exists'.1 hwalks
      simp only [steps, turns, logicTurns, hadvance]
      split
      · refine (walk_steps_turns advance _ 0 children _).imp ?_
        rintro step turn ⟨-, hchild, hvalue⟩
        exact ⟨hchild, hvalue⟩
      · exact .nil
  | decorator | timed | action => exact hwalks.elim

end Node

/-! ## Stretches of steps -/

/-- How one step follows another: a running child is executed again, and a child that lets the
node go on is followed by the next one. -/
def Follows (advance : Status) (one next : Nat × Status) : Prop :=
  one.2 = .running ∧ next.1 = one.1 ∨ one.2 = advance ∧ next.1 = one.1 + 1

/-- The position that a node has come to by some steps. -/
def nextIndex (advance : Status) (start : Nat) (steps : List (Nat × Status)) : Nat :=
  match steps.getLast? with
  | none => start
  | some (index, status) => if status = advance then index + 1 else index

/-- The position after more steps is the one that these lead to from where the earlier ones led. -/
theorem next_index_append (advance : Status) (start : Nat) (early late : List (Nat × Status)) :
    nextIndex advance start (early ++ late) =
      nextIndex advance (nextIndex advance start early) late := by
  unfold nextIndex
  rw [List.getLast?_append]
  cases late.getLast? <;> simp

/-- A step that neither runs nor lets the node go on is the last one. -/
theorem get_last?_of_stopped {advance : Status} {steps : List (Nat × Status)}
    (h : steps.IsChain (Follows advance)) {step : Nat × Status} (hstep : step ∈ steps)
    (hrunning : step.2 ≠ .running) (hadvance : step.2 ≠ advance) :
    steps.getLast? = some step := by
  induction steps with
  | nil => cases hstep
  | cons first rest ih =>
      obtain ⟨hfirst, hrest⟩ := List.isChain_cons.1 h
      rw [List.getLast?_cons]
      rcases List.mem_cons.1 hstep with rfl | hstep
      · cases rest with
        | nil => rfl
        | cons next later =>
            rcases hfirst next rfl with ⟨hrun, -⟩ | ⟨hadv, -⟩
            · exact absurd hrun hrunning
            · exact absurd hadv hadvance
      · rw [ih hrest hstep]
        rfl

/-- Steps of a walk from a position on: `stop` is the step that the walk stopped at, unless it
went through to the bound. -/
structure Stretch (advance : Status) (start bound : Nat) (steps : List (Nat × Status))
    (stop : Option (Nat × Status)) : Prop where
  chain : steps.IsChain (Follows advance)
  first : ∀ step ∈ steps.head?, step.1 = start
  stopped : ∀ step ∈ stop, steps.getLast? = some step ∧ step.2 ≠ advance ∧ step.1 < bound
  through : stop = none →
    nextIndex advance start steps = bound ∧ ∀ step ∈ steps, step.2 = advance

namespace Stretch

variable {advance : Status} {start bound : Nat} {steps : List (Nat × Status)}
  {stop : Option (Nat × Status)}

/-- A walk that starts at the bound makes no step. -/
theorem nothing (advance : Status) (bound : Nat) : Stretch advance bound bound [] none :=
  ⟨.nil, by simp, by simp, fun _ => ⟨rfl, by simp⟩⟩

/-- A walk that stops at its first child makes one step. -/
theorem halt {status : Status} (hstatus : status ≠ advance) (hbound : start < bound) :
    Stretch advance start bound [(start, status)] (some (start, status)) where
  chain := .singleton _
  first := by simp
  stopped := by
    intro step hstep
    obtain rfl := Option.some.inj hstep
    exact ⟨rfl, hstatus, hbound⟩
  through h := by cases h

/-- A child that lets the node go on comes before a stretch from the next position. -/
theorem onward (h : Stretch advance (start + 1) bound steps stop) :
    Stretch advance start bound ((start, advance) :: steps) stop where
  chain := List.isChain_cons.2 ⟨fun next hnext => .inr ⟨rfl, h.first next hnext⟩, h.chain⟩
  first := by simp
  stopped := by
    intro step hstep
    obtain ⟨hlast, hstatus, hbound⟩ := h.stopped step hstep
    rw [List.getLast?_cons, hlast]
    exact ⟨rfl, hstatus, hbound⟩
  through hstop := by
    have hfirst : nextIndex advance start [(start, advance)] = start + 1 := if_pos rfl
    obtain ⟨hbound, hall⟩ := h.through hstop
    refine ⟨?_, List.forall_mem_cons.2 ⟨rfl, hall⟩⟩
    rw [← hbound, ← hfirst, ← next_index_append]
    rfl

end Stretch

/-- The steps of a walk are a stretch from the position that it starts from. -/
theorem Node.walk_stretch (advance : Status) {skip : Nat} (index : Nat) {children : List (Node G)}
    (hskip : skip ≤ children.length) (agent : Agent G) :
    Stretch advance (index + skip) (index + children.length)
      (walkSteps rules kept elapsed advance skip index children agent)
      (walk rules kept elapsed advance skip index children agent).value := by
  induction children generalizing skip index agent with
  | nil =>
      obtain rfl : skip = 0 := Nat.le_zero.1 hskip
      exact .nothing advance index
  | cons child rest ih =>
      have hlength : index + (child :: rest).length = index + 1 + rest.length := by
        rw [List.length_cons]
        omega
      rw [hlength]
      cases skip with
      | succ skip =>
          have hstart : index + (skip + 1) = index + 1 + skip := by omega
          rw [hstart]
          exact ih (index + 1) (Nat.le_of_succ_le_succ hskip) agent
      | zero =>
          rw [walkSteps]
          by_cases hstatus : (child.execute rules kept elapsed agent).value = advance
          · rw [if_pos hstatus, walk_advance hstatus, hstatus]
            exact (ih (index + 1) (Nat.zero_le _) _).onward
          · rw [if_neg hstatus, walk_stop hstatus]
            exact .halt hstatus (by omega)

/-! ## One execution -/

namespace Node

/-- A fresh entry starts with the first child, and a running node with the child that it stands
at. -/
theorem resume_index_of_approach (hrules : rules.Discreet forest) {node : Node G}
    (hwalks : node.Walks) (agent : Agent G) :
    (node.approach rules agent).agent.resumeIndexOf node.id =
      if agent.statusOf node.id = .running then agent.resumeIndexOf node.id else 0 := by
  have hgate : ∀ agent : Agent G,
      (node.open rules agent).agent.resumeIndexOf node.id = agent.resumeIndexOf node.id :=
    fun agent => congrArg (Option.getD · 0)
      (node.open_place hrules agent).2
  have happroach : (node.approach rules agent).agent =
      (node.open rules (node.freshen rules agent).agent).agent := rfl
  rw [happroach, hgate]
  by_cases hrunning : agent.statusOf node.id = .running
  · rw [if_pos hrunning, freshen_of_running hrunning]
  · rw [if_neg hrunning, freshen_of_walks hwalks hrunning, Agent.resume_index_of_eq,
      Agent.position?_remember]
    rfl

/-- An execution of a sequence or priority whose gate is open: its steps are a stretch, its result
is that of the child that the walk stopped at, and the position of that child is kept. -/
theorem execute_stretch {head : Head G} {kind : CompositeKind} {children : List (Node G)}
    {advance : Status} (hadvance : kind.advance? = some advance) {agent : Agent G}
    (hopen : ((composite head kind children).approach rules agent).value = true)
    (hstart : ((composite head kind children).approach rules agent).agent.resumeIndexOf head.id ≤
      children.length) :
    let near := (composite head kind children).approach rules agent
    let outcome := (composite head kind children).execute rules kept elapsed agent
    ∃ stop, Stretch advance (near.agent.resumeIndexOf head.id) children.length
        ((composite head kind children).steps rules kept elapsed agent) stop ∧
      outcome.value = (stop.map Prod.snd).getD advance ∧
      outcome.agent.position? head.id = stop.map Prod.fst := by
  intro near outcome
  let walked := walk rules kept elapsed advance (near.agent.resumeIndexOf head.id) 0 children
    near.agent
  have hsteps : (composite head kind children).steps rules kept elapsed agent =
      walkSteps rules kept elapsed advance (near.agent.resumeIndexOf head.id) 0 children
        near.agent := by
    rw [steps, hadvance]
    exact if_pos hopen
  let settled := settleWalk head.id advance walked.value walked.agent
  have houtcome : outcome.value = settled.value ∧
      outcome.agent = settled.agent.settle head.id settled.value := by
    show (Node.execute _ _ _ _ agent).value = _ ∧ (Node.execute _ _ _ _ agent).agent = _
    rw [execute_inner_open (by simp [family]) hopen]
    dsimp only
    rw [logic_walk hadvance]
    exact ⟨rfl, rfl⟩
  have hstretch : Stretch advance (0 + _) (0 + _) _ walked.value :=
    walk_stretch advance 0 hstart near.agent
  rw [Nat.zero_add, Nat.zero_add, ← hsteps] at hstretch
  refine ⟨walked.value, hstretch, ?_, ?_⟩
  · rw [houtcome.1, settle_walk_value]
  · rw [houtcome.2, Agent.position?_settle, position?_settle_walk]

end Node

namespace Execution

/-- The steps of an execution. -/
def steps (rules : Rules G) (execution : Execution G) : List (Nat × Status) :=
  execution.node.steps rules execution.kept execution.elapsed execution.agent

/-- The position that an execution of a sequence or priority starts from. -/
def start (execution : Execution G) : Nat :=
  if execution.agent.statusOf execution.node.id = .running then
    execution.agent.resumeIndexOf execution.node.id
  else 0

variable {execution : Execution G} {head : Head G} {kind : CompositeKind}
  {children : List (Node G)} {advance : Status}

/-- An execution whose gate is closed executes no child. -/
theorem blocked (hnode : execution.node = .composite head kind children)
    (hclosed : ¬ execution.Admitted rules) :
    execution.result rules = .canNotExecute ∧ execution.steps rules = [] := by
  have happroach : (execution.node.approach rules execution.agent).value = false :=
    Bool.eq_false_iff.2 hclosed
  have hinner : execution.node.family ≠ .action := by simp [hnode, Node.family]
  refine ⟨?_, ?_⟩
  · rw [result, outcome, Node.execute_inner_closed hinner happroach]
  · rw [hnode] at happroach
    rw [steps, hnode, Node.steps, happroach]
    cases kind.advance? <;> rfl

/-- An execution whose gate is open: its steps are a stretch from the position that it starts
from, its result is that of the child that the walk stopped at, and the position of that child
is kept. -/
theorem admitted (hrules : rules.Discreet forest) (hadvance : kind.advance? = some advance)
    (hnode : execution.node = .composite head kind children)
    (hopen : execution.Admitted rules) (hstart : execution.start ≤ children.length) :
    ∃ stop, Stretch advance execution.start children.length (execution.steps rules) stop ∧
      execution.result rules = (stop.map Prod.snd).getD advance ∧
      (execution.outcome rules).agent.position? head.id = stop.map Prod.fst := by
  obtain ⟨⟨node, agent⟩, kept, elapsed⟩ := execution
  obtain rfl : node = .composite head kind children := hnode
  have hwalks : (Node.composite head kind children).Walks := by simp [Node.Walks, hadvance]
  have hindex : ((Node.composite head kind children).approach rules agent).agent.resumeIndexOf
      head.id = start ⟨⟨.composite head kind children, agent⟩, kept, elapsed⟩ :=
    Node.resume_index_of_approach hrules hwalks agent
  rw [← hindex] at hstart ⊢
  exact Node.execute_stretch hadvance hopen hstart

end Execution

/-- What the steps of a sequence or priority are like from a position on, up to and including its
execution `last`. -/
structure Activation (rules : Rules G) (advance : Status) (children : List (Node G)) (start : Nat)
    (steps : List (Nat × Status)) (last : Execution G) : Prop where
  first : ∀ step ∈ steps.head?, step.1 = start
  chain : steps.IsChain (Follows advance)
  stopped : ∀ step ∈ steps, step.2 ≠ .running → step.2 ≠ advance →
    steps.getLast? = some step ∧ last.result rules = step.2
  decided : last.Admitted rules → last.result rules ≠ advance →
    ∃ index, steps.getLast? = some (index, last.result rules)
  exhausted : last.result rules = advance ↔
    nextIndex advance start steps = children.length ∧ (children = [] → last.Admitted rules)
  position : last.result rules = advance →
    (last.outcome rules).agent.position? last.node.id = none
  blocked : ¬ last.Admitted rules →
    last.result rules = .canNotExecute ∧ last.steps rules = []

namespace Activation

variable {head : Head G} {kind : CompositeKind} {children : List (Node G)} {advance : Status}
  {start : Nat} {execution last : Execution G}

/-- The status that lets a node go on is neither running nor a blocked one. -/
theorem advance_decided (h : kind.advance? = some advance) :
    advance ≠ .running ∧ advance ≠ .canNotExecute := by
  cases kind with
  | sequence | priority =>
      obtain rfl := Option.some.inj h
      decide
  | parallel => cases h

/-- An activation that consists of one execution. -/
theorem single (hrules : rules.Discreet forest) (hadvance : kind.advance? = some advance)
    (hnode : last.node = .composite head kind children) (hstart : last.start ≤ children.length)
    (hedge : last.start = children.length → children = []) :
    Activation rules advance children last.start (last.steps rules) last := by
  obtain ⟨-, hcannot⟩ := advance_decided hadvance
  by_cases hopen : last.Admitted rules
  · obtain ⟨stop, hstretch, hresult, hposition⟩ :=
      Execution.admitted hrules hadvance hnode hopen hstart
    have hid : last.node.id = head.id := by rw [hnode]; rfl
    rcases stop with _ | ⟨index, status⟩
    · -- The walk went through.
      have hresult : last.result rules = advance := hresult
      obtain ⟨hbound, hall⟩ := hstretch.through rfl
      exact {
        first := hstretch.first
        chain := hstretch.chain
        stopped := fun step hstep _ hstatus => absurd (hall step hstep) hstatus
        decided := fun _ hne => absurd hresult hne
        exhausted := iff_of_true hresult ⟨hbound, fun _ => hopen⟩
        position := fun _ => hid ▸ hposition
        blocked := fun hclosed => absurd hopen hclosed }
    · -- The walk stopped at a child, which is the last step.
      obtain ⟨hlast, hstatus, hbound⟩ := hstretch.stopped _ rfl
      have hresult : last.result rules = status := hresult
      refine {
        first := hstretch.first
        chain := hstretch.chain
        stopped := fun step hstep hrunning hne => ?_
        decided := fun _ _ => ⟨index, hresult ▸ hlast⟩
        exhausted := iff_of_false (hresult ▸ hstatus) fun hnext => ?_
        position := fun heq => absurd heq (hresult ▸ hstatus)
        blocked := fun hclosed => absurd hopen hclosed }
      · have hstep := get_last?_of_stopped hstretch.chain hstep hrunning hne
        refine ⟨hstep, ?_⟩
        rw [hresult, ← Option.some.inj (hlast.symm.trans hstep)]
      · have hindex : nextIndex advance last.start (last.steps rules) = index := by
          rw [nextIndex, hlast]
          exact if_neg hstatus
        exact absurd (hindex.symm.trans hnext.1) (Nat.ne_of_lt hbound)
  · obtain ⟨hresult, hsteps⟩ := Execution.blocked hnode hopen
    rw [hsteps]
    exact {
      first := by simp
      chain := .nil
      stopped := by simp
      decided := fun hadmitted => absurd hadmitted hopen
      exhausted := iff_of_false (hresult ▸ hcannot.symm)
        fun hnext => hopen (hnext.2 (hedge hnext.1))
      position := fun heq => absurd (heq.symm.trans hresult) hcannot
      blocked := fun _ => ⟨hresult, hsteps⟩ }

/-- An execution that returns running comes before an activation from the child that it stopped
at. -/
theorem cons {index : Nat} {early steps : List (Nat × Status)}
    (hstretch : Stretch advance start children.length early (some (index, .running)))
    (h : Activation rules advance children index steps last) :
    Activation rules advance children start (early ++ steps) last := by
  obtain ⟨hlast, hstatus, -⟩ := hstretch.stopped _ rfl
  have hindex : nextIndex advance start early = index := by
    rw [nextIndex, hlast]
    exact if_neg hstatus
  have hnext : nextIndex advance start (early ++ steps) = nextIndex advance index steps := by
    rw [next_index_append, hindex]
  have hgetLast : ∀ step, steps.getLast? = some step →
      (early ++ steps).getLast? = some step := by
    intro step hstep
    rw [List.getLast?_append, hstep]
    rfl
  have hnonempty : early ≠ [] := by
    rintro rfl
    cases hlast
  exact {
    first := by
      intro step hstep
      rw [List.head?_append_of_ne_nil _ hnonempty] at hstep
      exact hstretch.first step hstep
    chain := by
      refine List.isChain_append.2 ⟨hstretch.chain, h.chain, fun one hone next hfirst => ?_⟩
      obtain rfl := Option.some.inj (hlast.symm.trans hone)
      exact .inl ⟨rfl, h.first next hfirst⟩
    stopped := by
      intro step hstep hrunning hne
      rcases List.mem_append.1 hstep with hstep | hstep
      · -- The steps of the first execution end with a running child.
        have hstop := get_last?_of_stopped hstretch.chain hstep hrunning hne
        exact absurd (congrArg Prod.snd (Option.some.inj (hlast.symm.trans hstop))).symm hrunning
      · obtain ⟨hgot, hresult⟩ := h.stopped step hstep hrunning hne
        exact ⟨hgetLast step hgot, hresult⟩
    decided := by
      intro hopen hne
      obtain ⟨place, hplace⟩ := h.decided hopen hne
      exact ⟨place, hgetLast _ hplace⟩
    exhausted := by
      rw [hnext]
      exact h.exhausted
    position := h.position
    blocked := h.blocked }

end Activation

/-- Executions of a sequence or priority that are linked by its place make up an activation: each
one that returns running leaves the node at the child that the next one starts from. -/
theorem Linked.activation (hrules : rules.Discreet forest) {head : Head G} {kind : CompositeKind}
    {children : List (Node G)} {advance : Status} (hadvance : kind.advance? = some advance)
    {before after : Agent G} {activation : List (Execution G)} {first last : Execution G}
    (hlinked : Linked rules (.place head.id) before (activation ++ [last]) after)
    (hnodes : ∀ execution ∈ activation ++ [last],
      execution.node = .composite head kind children)
    (hfirst : (activation ++ [last]).head? = some first)
    (hstart : first.start ≤ children.length) (hedge : first.start = children.length → children = [])
    (hrunning : ∀ execution ∈ activation, execution.result rules = .running) :
    Activation rules advance children first.start
      ((activation ++ [last]).flatMap (Execution.steps rules)) last := by
  induction activation generalizing before first with
  | nil =>
      obtain rfl := Option.some.inj hfirst
      rw [List.nil_append, List.flatMap_singleton]
      exact .single hrules hadvance (hnodes _ (by simp)) hstart hedge
  | cons execution rest ih =>
      obtain rfl := Option.some.inj hfirst
      obtain ⟨hexecution, hrest⟩ := List.forall_mem_cons.1 hrunning
      obtain ⟨hnode, hnodes⟩ := List.forall_mem_cons.1 hnodes
      have hid : execution.node.id = head.id := by rw [hnode]; rfl
      have hopen : execution.Admitted rules := by
        by_contra hclosed
        rw [(Execution.blocked hnode hclosed).1] at hexecution
        cases hexecution
      obtain ⟨stop, hstretch, hresult, hposition⟩ :=
        Execution.admitted hrules hadvance hnode hopen hstart
      -- The walk stopped at a running child, where the next execution starts.
      rcases stop with _ | ⟨index, status⟩
      · exact absurd (hresult.symm.trans hexecution) (Activation.advance_decided hadvance).1
      obtain rfl : status = .running := hresult.symm.trans hexecution
      obtain ⟨next, hnext⟩ : ∃ next, (rest ++ [last]).head? = some next := by
        cases rest <;> exact ⟨_, rfl⟩
      obtain ⟨-, hbetween⟩ := hlinked
      have hnextNode : next.node.id = head.id := by
        rw [hnodes next (List.mem_of_mem_head? hnext)]
        rfl
      have hplace : next.start = index := by
        obtain ⟨hstatus, hkept⟩ := hbetween.head hnext
        have hlast := execution.node.status?_execute rules execution.kept execution.elapsed
          execution.agent
        have hrun : next.agent.statusOf head.id = .running := by
          rw [Agent.status_of_eq, hstatus, ← hid]
          exact congrArg (Option.getD · Status.unknown) (hlast.trans (congrArg some hexecution))
        rw [Execution.start, hnextNode, if_pos hrun, Agent.resume_index_of_eq, hkept, hposition]
        rfl
      rw [List.cons_append, List.flatMap_cons]
      have hbound := (hstretch.stopped _ rfl).2.2
      refine .cons hstretch ?_
      rw [← hplace] at hbound ⊢
      exact ih hbetween hnodes hnext (Nat.le_of_lt hbound)
        (fun heq => absurd heq (Nat.ne_of_lt hbound)) hrest

namespace Command

/-- Under a discreet game a run executes nodes of the forest only. -/
theorem play_executions_mem (hrules : rules.Discreet forest) {commands : List (Command G)}
    (hcommands : ∀ command ∈ commands, command.Within forest) {agent : Agent G}
    (h : agent.Refers forest) :
    ∀ execution ∈ playExecutions rules commands agent, execution.node ∈ forestNodes forest :=
  play_executions_within hrules.loyal hcommands h

/-- In a run the place of a node changes by executions of the node alone. -/
theorem play_executions_linked (hrules : rules.Discreet forest) (hforest : Unambiguous forest)
    {top : Node G} (htop : top ∈ forestNodes forest) {commands : List (Command G)}
    (hcommands : ∀ command ∈ commands, command.Within forest) {agent : Agent G}
    (h : agent.Refers forest) :
    Linked rules (.place top.id) agent
      (Execution.sameNode top.id (playExecutions rules commands agent))
      (playAll rules commands agent).agent :=
  (Drift.place_owned hrules top.id).play_executions_linked hrules.loyal hforest htop hcommands h

end Command

/-- Whenever a sequence or priority is entered afresh in a run, its executions from there on, up
to and including the first that does not return running, execute its children in order: from the
first one on, a running child again, and the next one after each child that lets the node go on.
Any other status of a child is the last one and the node's result. The node itself comes out with
the status that lets it go on exactly when its position passes the last child, and then no
position is kept. A closed gate ends the activation without executing a child. -/
theorem activation_in_order (hrules : rules.Discreet forest) (hforest : Unambiguous forest)
    {head : Head G} {kind : CompositeKind} {children : List (Node G)} {advance : Status}
    (hadvance : kind.advance? = some advance)
    (hnode : .composite head kind children ∈ forestNodes forest)
    {agent : Agent G} (hagent : agent.Refers forest) {commands : List (Command G)}
    (hcommands : ∀ command ∈ commands, command.Within forest)
    {early activation late : List (Execution G)} {last : Execution G}
    (hrun : Execution.sameNode head.id (Command.playExecutions rules commands agent) =
      early ++ (activation ++ [last]) ++ late)
    (hfresh : ∀ first ∈ (activation ++ [last]).head?, first.agent.statusOf head.id ≠ .running)
    (hrunning : ∀ execution ∈ activation, execution.result rules = .running) :
    (∀ execution ∈ activation ++ [last], execution.node = .composite head kind children) ∧
      (∀ execution ∈ activation, execution.Admitted rules) ∧
      Activation rules advance children 0
        ((activation ++ [last]).flatMap (Execution.steps rules)) last := by
  have hnodes : ∀ execution ∈ activation ++ [last],
      execution.node = .composite head kind children := by
    intro execution hexecution
    have hmem : execution ∈ Execution.sameNode head.id
        (Command.playExecutions rules commands agent) := by
      rw [hrun]
      exact List.mem_append_left late (List.mem_append_right early hexecution)
    obtain ⟨hplayed, hid⟩ := List.mem_filter.1 hmem
    exact hforest _ (Command.play_executions_mem hrules hcommands hagent execution hplayed) _ hnode
      (of_decide_eq_true hid)
  have hadmitted : ∀ execution ∈ activation, execution.Admitted rules := by
    intro execution hexecution
    have hresult := hrunning execution hexecution
    by_contra hclosed
    rw [(Execution.blocked (hnodes execution (List.mem_append_left _ hexecution)) hclosed).1]
      at hresult
    cases hresult
  obtain ⟨first, hfirst⟩ : ∃ first, (activation ++ [last]).head? = some first := by
    cases activation <;> exact ⟨_, rfl⟩
  have hstart : first.start = 0 := by
    have hid : first.node.id = head.id := by
      rw [hnodes first (List.mem_of_mem_head? hfirst)]
      rfl
    rw [Execution.start, hid]
    exact if_neg (hfresh first hfirst)
  have hlinked := Command.play_executions_linked hrules hforest hnode hcommands hagent
  -- The executions of the whole run are linked, and so are those of the activation.
  have hid : (Node.composite head kind children).id = head.id := rfl
  rw [hid, hrun] at hlinked
  obtain ⟨middle, hlinked, -⟩ := hlinked.split
  obtain ⟨before, -, hlinked⟩ := hlinked.split
  refine ⟨hnodes, hadmitted, ?_⟩
  have hactivation := hlinked.activation hrules hadvance hnodes hfirst (by omega)
    (fun hedge => List.eq_nil_of_length_eq_zero (hedge.symm.trans hstart)) hrunning
  rwa [hstart] at hactivation

/-- An activation that lasts four updates. The first child is executed alone in the second, hands
its result over and leaves the turn to the other one, which has the third for itself. -/
theorem activation_in_order_errand :
    let rules := Rules.clocked deadline
    let executions := Execution.sameNode ⟨2⟩ (Command.playExecutions rules
      (.setBehavior (fun _ => false) errandTree :: [1, 2, 2, 2].map (.update fun _ => false))
      (Agent.fresh 7))
    executions.flatMap (Execution.steps rules) =
        [(0, .running), (0, .finished), (1, .running), (1, .finished)] ∧
      ∃ activation last, executions = activation ++ [last] ∧
        Activation rules .finished
          [.action ⟨⟨0⟩, none⟩ "Deadline" true (), .timed ⟨⟨1⟩, none⟩ 3 true] 0
          ((activation ++ [last]).flatMap (Execution.steps rules)) last := by
  intro rules executions
  have hnonempty : executions ≠ [] := List.ne_nil_of_length_pos (by decide +kernel)
  have hsplit := List.dropLast_append_getLast hnonempty
  have hrun : executions = [] ++ (executions.dropLast ++ [executions.getLast hnonempty]) ++ [] := by
    rw [hsplit, List.nil_append, List.append_nil]
  have hnode : Node.composite ⟨⟨2⟩, none⟩ .sequence
      [.action ⟨⟨0⟩, none⟩ "Deadline" true (), .timed ⟨⟨1⟩, none⟩ 3 true] ∈
        forestNodes [errandTree] :=
    List.mem_of_getElem? (i := 1) rfl
  have hresults : executions.dropLast.map (Execution.result rules) = [.running, .running] := by
    decide +kernel
  have hfresh : executions.head?.map (fun first => first.agent.statusOf ⟨2⟩) = some .unknown := by
    decide +kernel
  have hfresh' : ∀ first ∈ executions.head?, first.agent.statusOf ⟨2⟩ ≠ .running := by
    intro first hfirst
    rw [hfirst] at hfresh
    simp [Option.some.inj hfresh]
  refine ⟨by decide +kernel, executions.dropLast, executions.getLast hnonempty, hsplit.symm, ?_⟩
  refine (activation_in_order (Rules.clocked_discreet deadline [errandTree])
    (Tree.distinct_forest errand_tree_distinct).unambiguous rfl hnode ⟨?_, ?_⟩ ?_ hrun ?_ ?_).2.2
  · simp [Agent.fresh]
  · simp [Agent.fresh]
  · simp [Command.Within]
  · rwa [hsplit]
  · intro execution hexecution
    have hresult := List.mem_map_of_mem (f := Execution.result rules) hexecution
    rw [hresults] at hresult
    simpa using hresult

end BehaviorTree
