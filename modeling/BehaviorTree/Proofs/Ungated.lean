import BehaviorTree.Proofs.Beside

/-!
# Nodes without a gate

What walks come to through lists that are put together (`Node.walk_append`) or counted from
elsewhere (`Node.walk_counted`), and what an execution of a composite or decorator is that has no
gate (`Node.execute_ungated`, `Node.execute_inverted`). Agents stay beside each other where such a
composite stands on one side only (`Agent.Beside.begun`, `Agent.Beside.closed`).
-/

namespace BehaviorTree

variable {G : Game} {rules : Rules G} {kept kept' : NodeId → Bool} {elapsed : Nat}

/-! ## Walks through lists put together -/

namespace Node

/-- A walk through two lists goes on into the second if nothing in the first stops it. -/
theorem walk_append (advance : Status) (skip index : Nat) (front back : List (Node G)) :
    walk rules kept elapsed advance skip index (front ++ back) =
      walk rules kept elapsed advance skip index front >>= fun stop =>
        match stop with
        | some stop => pure (some stop)
        | none =>
            walk rules kept elapsed advance (skip - front.length) (index + front.length) back := by
  induction front generalizing skip index with
  | nil => cases skip <;> simp [walk]
  | cons child rest ih =>
      have hindex : index + (child :: rest).length = index + 1 + rest.length := by
        rw [List.length_cons]
        omega
      rw [hindex]
      cases skip with
      | succ skip =>
          have hskip : skip + 1 - (child :: rest).length = skip - rest.length := by
            rw [List.length_cons]
            omega
          rw [hskip]
          exact ih skip (index + 1)
      | zero =>
          rw [List.cons_append, walk, walk, bind_assoc]
          congr 1
          funext status
          split
          · simpa using ih 0 (index + 1)
          · simp

/-- A walk that stops in the front of a list does not come to the back. -/
theorem walk_append_of_some {advance : Status} {skip index : Nat} {front : List (Node G)}
    {agent : Agent G} {stop : Nat × Status}
    (h : (walk rules kept elapsed advance skip index front agent).value = some stop)
    (back : List (Node G)) :
    walk rules kept elapsed advance skip index (front ++ back) agent =
      walk rules kept elapsed advance skip index front agent := by
  rw [walk_append, Play.bind_apply, h]
  dsimp only [Play.pure_apply]
  rw [List.append_nil, ← h]

/-- A walk that does not stop in the front of a list goes on through the back. -/
theorem walk_append_of_none {advance : Status} {skip index : Nat} {front : List (Node G)}
    {agent : Agent G} (h : (walk rules kept elapsed advance skip index front agent).value = none)
    (back : List (Node G)) :
    walk rules kept elapsed advance skip index (front ++ back) agent =
      let first := walk rules kept elapsed advance skip index front agent
      let later := walk rules kept elapsed advance (skip - front.length) (index + front.length)
        back first.agent
      ⟨later.value, later.agent, first.notes ++ later.notes⟩ := by
  rw [walk_append, Play.bind_apply, h]

/-- A walk that passes over the front of a list is a walk through the back. -/
theorem walk_past (advance : Status) (skip index : Nat) (front back : List (Node G)) :
    walk rules kept elapsed advance (front.length + skip) index (front ++ back) =
      walk rules kept elapsed advance skip (index + front.length) back := by
  induction front generalizing index with
  | nil => rw [List.length_nil, Nat.zero_add, Nat.add_zero, List.nil_append]
  | cons child rest ih =>
      have hskip : (child :: rest).length + skip = rest.length + skip + 1 := by
        rw [List.length_cons]
        omega
      have hindex : index + (child :: rest).length = index + 1 + rest.length := by
        rw [List.length_cons]
        omega
      rw [hskip, hindex]
      exact ih (index + 1)

/-- Where the counting starts matters only for the position at which a walk stops. -/
theorem walk_index (advance : Status) (skip index offset : Nat) (children : List (Node G)) :
    walk rules kept elapsed advance skip (index + offset) children =
      (Option.map fun stop : Nat × Status => (stop.1 + offset, stop.2)) <$>
        walk rules kept elapsed advance skip index children := by
  induction children generalizing skip index with
  | nil => cases skip <;> simp [walk]
  | cons child rest ih =>
      have hindex : index + offset + 1 = index + 1 + offset := by omega
      cases skip with
      | succ skip =>
          rw [walk, walk, hindex]
          exact ih skip (index + 1)
      | zero =>
          rw [walk, walk, map_bind, hindex]
          congr 1
          funext status
          split
          · exact ih 0 (index + 1)
          · simp

/-- A walk that counts from elsewhere stops at the same child, counted from there. -/
theorem walk_counted (advance : Status) (skip index : Nat) (children : List (Node G))
    (agent : Agent G) :
    walk rules kept elapsed advance skip index children agent =
      ⟨(walk rules kept elapsed advance skip 0 children agent).value.map fun stop =>
          (stop.1 + index, stop.2),
        (walk rules kept elapsed advance skip 0 children agent).agent,
        (walk rules kept elapsed advance skip 0 children agent).notes⟩ := by
  nth_rewrite 1 [← Nat.zero_add index]
  rw [walk_index, Play.map_apply]

/-- A walk stops at a child that does not let it go on. -/
theorem walk_stops {advance : Status} {skip index : Nat} {children : List (Node G)}
    {agent : Agent G} {stop : Nat × Status}
    (h : (walk rules kept elapsed advance skip index children agent).value = some stop) :
    stop.1 < index + children.length ∧ stop.2 ≠ advance := by
  induction children generalizing skip index agent with
  | nil => cases skip <;> simp [walk] at h
  | cons child rest ih =>
      rw [List.length_cons]
      cases skip with
      | succ skip =>
          change (walk rules kept elapsed advance skip (index + 1) rest agent).value = _ at h
          have hlater := ih h
          exact ⟨by omega, hlater.2⟩
      | zero =>
          by_cases hstatus : (child.execute rules kept elapsed agent).value = advance
          · rw [walk_advance hstatus] at h
            have hlater := ih h
            exact ⟨by omega, hlater.2⟩
          · rw [walk_stop hstatus] at h
            obtain rfl := Option.some.inj h
            exact ⟨by simp, hstatus⟩

end Node

/-! ## Composites without a gate -/

/-- The agent once a sequence or priority is entered: a fresh entry sets its position to the first
child. -/
def Agent.begun (agent : Agent G) (id : NodeId) : Agent G :=
  if agent.statusOf id = .running then agent else agent.remember .resumeIndex id.raw (0 : Nat)

/-- The agent once a walk through the children of a sequence or priority is settled. -/
def Agent.closed (agent : Agent G) (id : NodeId) (advance : Status)
    (stop : Option (Nat × Status)) : Agent G :=
  (Node.settleWalk id advance stop agent).agent.settle id ((stop.map Prod.snd).getD advance)

namespace Agent

variable {id : NodeId}

/-- An agent stands as it did when a composite is entered. -/
theorem begun_stands (agent : Agent G) (id : NodeId) : agent.Stands (agent.begun id) := by
  unfold begun
  split
  · exact .refl agent
  · exact ⟨rfl, rfl, rfl, rfl, rfl, rfl⟩

/-- The entry into a composite leaves the selection alone. -/
theorem selection_begun (agent : Agent G) (id : NodeId) :
    (agent.begun id).selection = agent.selection := by
  unfold begun
  split <;> rfl

/-- The entry into a composite changes no entry but its position. -/
theorem begun_spares (agent : Agent G) {region : Region G} (h : region .resumeIndex id.raw) :
    agent.Spares region (agent.begun id) := by
  unfold begun
  split
  · exact .refl agent
  · exact agent.spares_remember region .resumeIndex _ h

/-- The entry into a composite changes no status. -/
theorem status_of_begun (agent : Agent G) (id : NodeId) :
    (agent.begun id).statusOf id = agent.statusOf id := by
  have hspares : agent.Spares (fun slot _ => slot = .resumeIndex) (agent.begun id) :=
    agent.begun_spares rfl
  exact hspares.status_of_eq (by simp)

/-- A running composite keeps its position when it is executed again. -/
theorem resume_index_of_begun_of_running {agent : Agent G} (h : agent.statusOf id = .running) :
    (agent.begun id).resumeIndexOf id = agent.resumeIndexOf id := by rw [begun, if_pos h]

/-- A composite that is not running is entered at its first child. -/
theorem resume_index_of_begun_of_fresh {agent : Agent G} (h : agent.statusOf id ≠ .running) :
    (agent.begun id).resumeIndexOf id = 0 := by
  rw [begun, if_neg h, resume_index_of_eq, position?_remember]
  rfl

/-- An agent stands as it did when a walk is settled. -/
theorem closed_stands (agent : Agent G) (id : NodeId) (advance : Status)
    (stop : Option (Nat × Status)) : agent.Stands (agent.closed id advance stop) :=
  (Node.stands_settle_walk id advance stop agent).trans (stands_settle _ id _)

/-- The end of a walk leaves the selection alone. -/
theorem selection_closed (agent : Agent G) (id : NodeId) (advance : Status)
    (stop : Option (Nat × Status)) :
    (agent.closed id advance stop).selection = agent.selection :=
  Node.selection_settle_walk id advance stop agent

/-- The end of a walk changes no entries but those of the composite. -/
theorem closed_spares (agent : Agent G) (advance : Status) (stop : Option (Nat × Status))
    {region : Region G} (hstatus : region .status id.raw) (hposition : region .resumeIndex id.raw) :
    agent.Spares region (agent.closed id advance stop) :=
  (Node.spares_settle_walk advance stop agent hposition).trans (spares_settle _ region _ hstatus)

/-- The end of a walk gives the composite the status of the child that stopped it, or else
`advance`. -/
theorem status_of_closed (agent : Agent G) (id : NodeId) (advance : Status)
    (stop : Option (Nat × Status)) :
    (agent.closed id advance stop).statusOf id = (stop.map Prod.snd).getD advance :=
  status_of_settle_self _ id _

/-- The end of a walk stores the position of the child that stopped it, or else the first. -/
theorem resume_index_of_closed (agent : Agent G) (id : NodeId) (advance : Status)
    (stop : Option (Nat × Status)) :
    (agent.closed id advance stop).resumeIndexOf id = (stop.map Prod.fst).getD 0 := by
  rw [resume_index_of_eq, closed, position?_settle, Node.position?_settle_walk]

namespace Beside

variable {ids : List NodeId} {tree flat : Tree G} {one other : Agent G} {id' : NodeId}

/-- Composites that are there on one side only are entered and settled on their own. -/
theorem begun (h : one.Beside ids tree flat other) (hid : id ∈ ids) (hid' : id' ∈ ids) :
    (one.begun id).Beside ids tree flat (other.begun id') :=
  h.apart (one.begun_stands id) (other.begun_stands id') (one.selection_begun id)
    (other.selection_begun id') (one.begun_spares (Region.among_of_mem hid (by simp)))
    (other.begun_spares (Region.among_of_mem hid' (by simp)))

/-- Agents that each settle a walk of a composite that is not compared stay beside each other. -/
theorem closed (h : one.Beside ids tree flat other) (hid : id ∈ ids) (hid' : id' ∈ ids)
    (advance advance' : Status) (stop stop' : Option (Nat × Status)) :
    (one.closed id advance stop).Beside ids tree flat (other.closed id' advance' stop') :=
  h.apart (one.closed_stands id advance stop) (other.closed_stands id' advance' stop')
    (one.selection_closed id advance stop) (other.selection_closed id' advance' stop')
    (one.closed_spares advance stop (Region.among_of_mem hid (by simp))
      (Region.among_of_mem hid (by simp)))
    (other.closed_spares advance' stop' (Region.among_of_mem hid' (by simp))
      (Region.among_of_mem hid' (by simp)))

end Beside

end Agent

/-- What lets a composite go on is never that a child is running. -/
theorem CompositeKind.advance_ne_running {kind : CompositeKind} {advance : Status}
    (h : kind.advance? = some advance) : advance ≠ .running := by
  rintro rfl
  cases kind <;> simp [advance?] at h

namespace Node

/-- An execution of a sequence or priority that has no gate. -/
theorem execute_ungated {id : NodeId} {kind : CompositeKind} {advance : Status}
    (hkind : kind.advance? = some advance) (children : List (Node G)) (agent : Agent G) :
    (composite ⟨id, none⟩ kind children).execute rules kept elapsed agent =
      let stop := walk rules kept elapsed advance ((agent.begun id).resumeIndexOf id) 0 children
        (agent.begun id)
      let status := (stop.value.map Prod.snd).getD advance
      ⟨status, stop.agent.closed id advance stop.value, stop.notes ++ [.executed id status]⟩ := by
  have happroach : (composite ⟨id, none⟩ kind children).approach rules agent =
      ⟨true, agent.begun id, []⟩ := by
    cases kind with
    | parallel => simp [CompositeKind.advance?] at hkind
    | sequence | priority =>
        by_cases hrunning : agent.statusOf id = .running <;>
          simp [approach, freshen, Node.open, gate, Node.id, head, entry, enterComposite,
            Agent.begun, Status.isRunning, hrunning]
  rw [execute_inner_open (by simp [family]) (by rw [happroach]), happroach]
  dsimp only
  rw [logic_walk hkind]
  dsimp only
  generalize walk rules kept elapsed advance ((agent.begun id).resumeIndexOf id) 0 children
    (agent.begun id) = stop
  obtain ⟨_ | stop, walked, notes⟩ := stop <;>
    simp [settleWalk, Agent.closed, Node.id, head]

/-- An inverter without a gate above a child. -/
def inverted (id : NodeId) (child : Node G) : Node G :=
  decorator ⟨id, none⟩ .inverter (some child)

/-- Nothing goes before the logic of an inverter without a gate. -/
theorem approach_inverted (id : NodeId) (child : Node G) (agent : Agent G) :
    (inverted id child).approach rules agent = ⟨true, agent, []⟩ := by
  by_cases hrunning : agent.statusOf id = .running <;>
    simp [inverted, approach, freshen, Node.open, gate, Node.id, head, entry, Status.isRunning,
      hrunning]

/-- An execution of an inverter without a gate is one of the child, with the result inverted. -/
theorem execute_inverted (id : NodeId) (child : Node G) (agent : Agent G) :
    (inverted id child).execute rules kept elapsed agent =
      let first := child.execute rules kept elapsed agent
      ⟨first.value.invert, first.agent.settle id first.value.invert,
        first.notes ++ [.executed id first.value.invert]⟩ := by
  have happroach : (inverted id child).approach rules agent = ⟨true, agent, []⟩ :=
    approach_inverted id child agent
  have hlogic : (inverted id child).logic rules kept elapsed agent =
      let first := child.execute rules kept elapsed agent
      ⟨first.value.invert, first.agent, first.notes⟩ := by
    have hunspent : (spent (⟨id, none⟩ : Head G).id .inverter agent).value = false := rfl
    rw [inverted, logic_unspent hunspent]
    simp [executeChild, answerChild, countChild, reshape]
  rw [execute_inner_open (by simp [inverted, family]) (by rw [happroach]), happroach]
  dsimp only
  rw [hlogic]
  rfl

end Node

end BehaviorTree
