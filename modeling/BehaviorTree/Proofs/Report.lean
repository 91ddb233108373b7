import BehaviorTree.Proofs.LoadOrder
import BehaviorTree.Proofs.Solo

/-!
# The report of a simulation

A simulation puts its agents into one zone, where an agent replaces an earlier one of the same
entity, and updates them together. What it shows is still about each entity on its own. An entity's
`Role` is the last entry for it and the tree that this entry names; the row of the entity is the row
of the agent that the role describes, updated as often with nothing else in use.

`simulation_report` says so for every configuration whose files load under different names and
whose agents all run one of them. In all other cases the report is about the first file, or else the
first agent, that is at fault, and nothing is printed.
-/

namespace BehaviorTree

/-- An entry of an ascending table is found under its key. -/
theorem Table.find?_of_mem {α : Type} {entries : List (Nat × α)} (h : Ascending entries)
    {entry : Nat × α} (hentry : entry ∈ entries) : find? entry.1 entries = some entry.2 := by
  induction entries with
  | nil => exact nomatch hentry
  | cons head rest ih =>
      obtain ⟨hhead, hrest⟩ := List.pairwise_cons.1 h
      rcases List.mem_cons.1 hentry with rfl | hmem
      · exact if_pos rfl
      · exact (if_neg (hhead entry hmem).ne).trans (ih hrest hmem)

/-- The values of a table are found under its keys. -/
theorem Table.values_eq {α : Type} (table : Table α) :
    table.values = table.keys.filterMap table.get? := by
  rw [values, keys, List.filterMap_map, ← List.filterMap_eq_map]
  refine List.filterMap_congr fun entry hentry => ?_
  exact (find?_of_mem table.ascending hentry).symm

/-! ## Recordings on one line -/

/-- What is in a text put together is in the separator or in one of the parts. -/
theorem Text.mem_intercalate {c : Char} {separator : String} {texts : List String}
    (h : c ∈ (separator.intercalate texts).toList) :
    c ∈ separator.toList ∨ ∃ text ∈ texts, c ∈ text.toList := by
  induction texts with
  | nil => simp at h
  | cons text rest ih =>
      cases rest with
      | nil => exact .inr ⟨text, List.mem_cons_self, by simpa using h⟩
      | cons other rest =>
          rw [String.intercalate_cons_cons, String.toList_append, String.toList_append,
            List.mem_append, List.mem_append] at h
          rcases h with (hfirst | hseparator) | hlater
          · exact .inr ⟨text, List.mem_cons_self, hfirst⟩
          · exact .inl hseparator
          · refine (ih hlater).imp_right ?_
            rintro ⟨later, hmem, hc⟩
            exact ⟨later, List.mem_cons_of_mem text hmem, hc⟩

/-- An event is written on one line. -/
theorem TraceEvent.newline_not_mem_to_json (event : TraceEvent) :
    '\n' ∉ event.toJson.toList := by
  have hnumber : ∀ n : Nat, '\n' ∉ (toString n).toList := by
    intro n h
    have hdigits : (toString n).toList = Nat.toDigits 10 n := by simp [toString, Nat.repr]
    rw [hdigits] at h
    have hdigit := Nat.isDigit_of_mem_toDigits (by decide) (by decide) h
    exact absurd hdigit (by decide)
  have hstatus : '\n' ∉ event.status.name.toList := by cases event.status <;> decide
  simp only [toJson, String.toList_append, List.mem_append, not_or]
  refine ⟨⟨⟨⟨⟨⟨?_, hnumber _⟩, ?_⟩, hnumber _⟩, ?_⟩, hstatus⟩, ?_⟩
  all_goals decide

/-- A recording is written without line breaks. -/
theorem TraceLog.newline_not_mem_to_json (log : TraceLog) : '\n' ∉ log.toJson.toList := by
  have hevents : '\n' ∉ (",".intercalate (log.events.map TraceEvent.toJson)).toList := by
    intro h
    rcases Text.mem_intercalate h with hcomma | ⟨text, htext, hc⟩
    · exact absurd hcomma (by decide)
    · obtain ⟨event, -, rfl⟩ := List.mem_map.1 htext
      exact event.newline_not_mem_to_json hc
  simp only [toJson, String.toList_append, List.mem_append, not_or]
  refine ⟨⟨?_, hevents⟩, ?_⟩
  all_goals decide

namespace Simulation

/-! ## Roles -/

/-- The last entry for an entity. -/
def lastFor? (entries : List AgentConfig) (entity : EntityId) : Option AgentConfig :=
  (entries.filter fun entry => entry.entity = entity).getLast?

section

variable {entries : List AgentConfig} {entry : AgentConfig} {entity : EntityId}

/-- The last entry for an entity is in the rest if there is one there, or else the first entry may
be it. -/
theorem last_for?_cons (entry : AgentConfig) (rest : List AgentConfig) (entity : EntityId) :
    lastFor? (entry :: rest) entity =
      (lastFor? rest entity).or (if entry.entity = entity then some entry else none) := by
  unfold lastFor?
  by_cases h : entry.entity = entity
  · rw [List.filter_cons_of_pos (by simpa using h), List.getLast?_cons, if_pos h]
    cases (rest.filter fun entry => entry.entity = entity).getLast? <;> rfl
  · rw [List.filter_cons_of_neg (by simpa using h), if_neg h, Option.or_none]

/-- The last entry for an entity is an entry, and for the entity. -/
theorem mem_of_last_for? (h : lastFor? entries entity = some entry) :
    entry ∈ entries ∧ entry.entity = entity := by
  simpa using List.mem_filter.1 (List.mem_of_getLast? h)

/-- There is a last entry for the entities that have entries, and for no others. -/
theorem last_for?_is_some :
    (lastFor? entries entity).isSome ↔ entity ∈ entries.map AgentConfig.entity := by
  simp [lastFor?]

end

/-- What counts for an entity: its entry, and the tree that this names. -/
structure Role where
  entry : AgentConfig
  tree : Tree Demo.game

namespace Role

def entity (role : Role) : EntityId := role.entry.entity

/-- The agent of a role as it is registered with a zone. -/
def joined (role : Role) (trace : Bool) (zone : ZoneId) : Agent Demo.game :=
  { makeAgent trace role.entry role.tree with zone := some zone }

/-- The agent of a role after some updates, had it nobody with it. -/
def alone (role : Role) (trace : Bool) (elapsed times : Nat) : Agent Demo.game :=
  (makeAgent trace role.entry role.tree).solo Demo.rules elapsed times

/-- The row of a role. -/
def line (role : Role) (elapsed times : Nat) : String := row (role.alone false elapsed times)

/-- The row of a role's recording. -/
def recording (role : Role) (elapsed times : Nat) : String :=
  traceRow (role.alone true elapsed times)

end Role

/-- The role of an entity. -/
def role? (cache : Cache Demo.game) (entries : List AgentConfig) (entity : EntityId) :
    Option Role :=
  (lastFor? entries entity).bind fun entry =>
    (cache.get? entry.behavior).map fun tree => ⟨entry, tree⟩

/-- Later entries come first, if their trees are known. -/
theorem role?_cons {cache : Cache Demo.game} {rest : List AgentConfig}
    (h : ∀ entry ∈ rest, (cache.get? entry.behavior).isSome) (entry : AgentConfig)
    (entity : EntityId) :
    role? cache (entry :: rest) entity = (role? cache rest entity).or
      (if entry.entity = entity then (cache.get? entry.behavior).map (Role.mk entry)
        else none) := by
  rw [role?, role?, last_for?_cons]
  cases hlast : lastFor? rest entity with
  | none =>
      split
      · rfl
      · rfl
  | some last =>
      obtain ⟨tree, htree⟩ := Option.isSome_iff_exists.1 (h last (mem_of_last_for? hlast).1)
      rw [Option.some_or, Option.bind_some, htree, Option.map_some, Option.some_or]

/-- A role is of the last entry for its entity and of the tree that this names. -/
theorem role?_eq_some {cache : Cache Demo.game} {entries : List AgentConfig} {entity : EntityId}
    {role : Role} (h : role? cache entries entity = some role) :
    lastFor? entries entity = some role.entry ∧
      cache.get? role.entry.behavior = some role.tree := by
  obtain ⟨entry, hentry, hrole⟩ := Option.bind_eq_some_iff.1 h
  obtain ⟨tree, htree, rfl⟩ := Option.map_eq_some_iff.1 hrole
  exact ⟨hentry, htree⟩

/-- There is a role for the entities that have entries, and for no others, if all trees are loaded.
-/
theorem role?_is_some {cache : Cache Demo.game} {entries : List AgentConfig}
    (h : ∀ entry ∈ entries, (cache.get? entry.behavior).isSome) {entity : EntityId} :
    (role? cache entries entity).isSome ↔ entity ∈ entries.map AgentConfig.entity := by
  rw [← last_for?_is_some, role?]
  cases hlast : lastFor? entries entity with
  | none => rfl
  | some last => simpa using h last (mem_of_last_for? hlast).1

/-! ## Agents in their zone -/

section

variable {cache : Cache Demo.game} {trace : Bool}

/-- An agent that is added replaces the one of its entity. -/
theorem get?_add_agent_make_agent (zone : Zone Demo.game) (entry : AgentConfig)
    (tree : Tree Demo.game) (entity : EntityId) :
    (zone.addAgent (makeAgent trace entry tree)).value.2.agents.get? entity =
      if entry.entity = entity then some (Role.joined ⟨entry, tree⟩ trace zone.id)
      else zone.agents.get? entity := by
  rw [Zone.get?_add_agent]
  cases trace <;> rfl

variable (trace) in
/-- Agents of known trees are all registered, the last one of each entity for good. -/
theorem populate_known {entries : List AgentConfig}
    (h : ∀ entry ∈ entries, (cache.get? entry.behavior).isSome) (zone : Zone Demo.game) :
    ∃ later, populate trace cache zone entries = .ok later ∧ later.id = zone.id ∧
      ∀ entity, later.agents.get? entity =
        ((role? cache entries entity).map (Role.joined · trace zone.id)).or
          (zone.agents.get? entity) := by
  induction entries generalizing zone with
  | nil => exact ⟨zone, rfl, rfl, fun _ => rfl⟩
  | cons entry rest ih =>
      obtain ⟨hentry, hrest⟩ := List.forall_mem_cons.1 h
      obtain ⟨tree, htree⟩ := Option.isSome_iff_exists.1 hentry
      obtain ⟨later, hlater, hid, hget⟩ :=
        ih hrest (zone.addAgent (makeAgent trace entry tree)).value.2
      refine ⟨later, by rw [populate, htree]; exact hlater, hid, fun entity => ?_⟩
      rw [hget, get?_add_agent_make_agent, role?_cons hrest, htree]
      -- A later entry for the entity replaces this one, which itself replaces what was there.
      cases role? cache rest entity with
      | some role => rfl
      | none => split <;> rfl

variable (trace) in
/-- The first agent of an unknown tree ends it all. -/
theorem populate_unknown {earlier : List AgentConfig}
    (h : ∀ entry ∈ earlier, (cache.get? entry.behavior).isSome) {entry : AgentConfig}
    (hentry : cache.get? entry.behavior = none) (later : List AgentConfig)
    (zone : Zone Demo.game) :
    populate trace cache zone (earlier ++ entry :: later) =
      .error (.unknownBehavior entry.entity entry.behavior) := by
  induction earlier generalizing zone with
  | nil => rw [List.nil_append, populate, hentry]
  | cons first rest ih =>
      obtain ⟨hfirst, hrest⟩ := List.forall_mem_cons.1 h
      obtain ⟨tree, htree⟩ := Option.isSome_iff_exists.1 hfirst
      rw [List.cons_append, populate, htree]
      exact ih hrest _

/-- Updates leave the same entities registered. -/
theorem keys_update_times (elapsed times : Nat) (zone : Zone Demo.game) :
    (updateTimes cache elapsed times zone).agents.keys = zone.agents.keys := by
  induction times generalizing zone with
  | zero => rfl
  | succ times ih =>
      rw [updateTimes, ih]
      exact Zone.map_fst_update_agents Demo.rules cache.holds elapsed 0 [] zone.agents.entries

/-- An agent that runs one tree is the one that it would be alone after all updates. -/
theorem get?_update_times (elapsed times : Nat) {zone : Zone Demo.game} {entity : EntityId}
    {tree : Tree Demo.game} {agent : Agent Demo.game} (h : zone.agents.get? entity = some agent)
    (hbehavior : agent.behavior = some tree) (hrefers : agent.Refers [tree]) :
    (updateTimes cache elapsed times zone).agents.get? entity =
      some (agent.solo Demo.rules elapsed times) := by
  induction times generalizing zone agent with
  | zero => exact h
  | succ times ih =>
      -- All that the agent can hold is from its own tree, so the others do not matter to it.
      have hturn := agent.turn_eq Demo.rules_steady
        (fun _ hattached => hrefers.indifferent hattached (fun _ => false)
          (zone.surroundings Demo.rules cache.holds elapsed entity)) elapsed
      have hget := zone.get?_update Demo.rules cache.holds elapsed entity
      rw [h, Option.map_some, hturn, Agent.turn_eq_update] at hget
      exact ih hget
        ((agent.behavior_update Demo.rules_modest _ elapsed).trans hbehavior)
        (Agent.update_refers (Demo.rules_discreet [tree]).loyal _ elapsed agent hrefers)

end

/-! ## What is told of a role -/

section

variable {tree : Tree Demo.game} {one other : Agent Demo.game}

/-- Rows show neither zones nor recordings. -/
theorem row_eq {shown : Bool} (h : Agent.Shadows shown tree one other) : row other = row one := by
  obtain ⟨zone, trace, -, -⟩ := h
  rfl

/-- Agents that are alike in all that is told have the same row for their recordings. -/
theorem trace_row_eq (h : Agent.Shadows true tree one other) : traceRow other = traceRow one := by
  obtain ⟨zone, trace, hshown, -⟩ := h
  rw [hshown rfl]
  rfl

end

namespace Role

variable {elapsed times : Nat}

/-- An agent that joins a zone has the tree of its role. -/
theorem behavior_joined (role : Role) (trace : Bool) (zone : ZoneId) :
    (role.joined trace zone).behavior = some role.tree := by
  cases trace <;> rfl

/-- An agent that joins a zone refers to nothing but the tree of its role. -/
theorem refers_joined (role : Role) (trace : Bool) (zone : ZoneId) :
    (role.joined trace zone).Refers [role.tree] := by
  cases trace
  all_goals exact ⟨by simp [joined, makeAgent, Agent.enableTrace], fun _ _ h => nomatch h⟩

/-- In a zone, traced or not, the agent of a role differs from the lone one in nothing that is
shown. -/
theorem shadows_joined (role : Role) (shown trace : Bool) (h : shown = true → trace = true)
    (zone : ZoneId) :
    Agent.Shadows shown role.tree (makeAgent shown role.entry role.tree)
      (role.joined trace zone) := by
  cases shown with
  | true =>
      obtain rfl := h rfl
      exact .intro (some zone) (some .empty) (fun _ => rfl) rfl
  | false =>
      cases trace with
      | true => exact .intro (some zone) (some .empty) nofun rfl
      | false => exact .intro (some zone) none nofun rfl

/-- To be in a zone makes no difference to the row of an agent. -/
theorem row_joined (role : Role) (trace : Bool) (zone : ZoneId) :
    row ((role.joined trace zone).solo Demo.rules elapsed times) = role.line elapsed times :=
  row_eq ((role.shadows_joined false trace nofun zone).solo (Demo.rules_accord false role.tree)
    elapsed times)

/-- To be in a zone makes no difference to the recording of an agent. -/
theorem trace_row_joined (role : Role) (zone : ZoneId) :
    traceRow ((role.joined true zone).solo Demo.rules elapsed times) =
      role.recording elapsed times :=
  trace_row_eq ((role.shadows_joined true true (fun h => h) zone).solo
    (Demo.rules_accord true role.tree) elapsed times)

/-- What is told of a role: its entity, its tree, the status of its agent after updates without
others, and their number; of a paused agent, that it has not been updated at all. A recording is on
one line. -/
structure Told (role : Role) (elapsed times : Nat) : Prop where
  line : role.line elapsed times = "\t".intercalate [toString role.entity, role.entry.behavior,
    (role.alone false elapsed times).status.name,
    toString (if role.entry.paused then 0 else times)] ++ "\n"
  paused : role.entry.paused = true → (role.alone false elapsed times).status = .unknown
  recording : ∃ log, (role.alone true elapsed times).trace = some log ∧
    role.recording elapsed times = toString role.entity ++ "\t" ++ log.toJson ++ "\n" ∧
    '\n' ∉ log.toJson.toList

/-- A role is told of by its entity, its tree and what the updates come to. -/
theorem told (role : Role) (hname : role.tree.name = role.entry.behavior) (elapsed times : Nat) :
    role.Told elapsed times := by
  have hattached : ∀ trace, (makeAgent trace role.entry role.tree).behavior = some role.tree := by
    intro trace
    cases trace <;> rfl
  have hcounted : ∀ trace, Agent.Counted times (makeAgent trace role.entry role.tree)
      (role.alone trace elapsed times) := fun trace =>
    Agent.solo_counted Demo.rules_modest elapsed times (hattached trace)
  refine ⟨?_, fun hpaused => ?_, ?_⟩
  · have hsolo := hcounted false
    have hentity : (role.alone false elapsed times).entity = role.entity := hsolo.entity
    have hbehavior : (role.alone false elapsed times).behavior = some role.tree := hsolo.behavior
    have hticks : (role.alone false elapsed times).ticks =
        if role.entry.paused then 0 else times := by simpa [makeAgent] using hsolo.ticks
    rw [Role.line, row, hentity, hbehavior, hticks, ← hname]
  · exact congrArg Agent.status (Agent.solo_of_paused elapsed times hpaused)
  · have hfresh : (makeAgent true role.entry role.tree).Transcribed .empty :=
      (Agent.transcribed_fresh role.entity).move rfl rfl rfl
    obtain ⟨log, hlog⟩ := hfresh.solo Demo.rules_unrecorded elapsed times
    have htrace : (role.alone true elapsed times).trace = some log := hlog.trace
    have hentity : (role.alone true elapsed times).entity = role.entity := (hcounted true).entity
    refine ⟨log, htrace, ?_, log.newline_not_mem_to_json⟩
    rw [Role.recording, traceRow, htrace, hentity]

end Role

/-! ## Who takes part -/

/-- The roles of the entities of a configuration, in ascending order, given the trees that have been
loaded. -/
structure Cast (trees : List (Tree Demo.game)) (agents : List AgentConfig) where
  roles : List Role
  ascending : (roles.map Role.entity).Pairwise (· < ·)
  listed : ∀ entity,
    entity ∈ roles.map Role.entity ↔ entity ∈ agents.map AgentConfig.entity
  last : ∀ role ∈ roles, lastFor? agents role.entity = some role.entry
  runs : ∀ role ∈ roles, role.tree ∈ trees ∧ role.tree.name = role.entry.behavior

/-- What is shown of a cast: a row for each role, and then the recordings, if there are any. -/
def Cast.text {trees : List (Tree Demo.game)} {agents : List AgentConfig}
    (cast : Cast trees agents) (trace : Bool) (elapsed times : Nat) : String :=
  "entity\tbehavior\tstatus\tticks\n" ++
    String.join (cast.roles.map fun role => role.line elapsed times) ++
    (if trace then String.join (cast.roles.map fun role => role.recording elapsed times) else "")

section

variable {cache : Cache Demo.game} {agents : List AgentConfig} {trace : Bool}
  {zone : Zone Demo.game}

/-- The roles of the entities of a zone make up a cast. -/
theorem exists_cast (h : ∀ entry ∈ agents, (cache.get? entry.behavior).isSome)
    (hzone : ∀ entity, entity ∈ zone.agents.keys ↔ (role? cache agents entity).isSome) :
    ∃ cast : Cast cache.trees agents,
      cast.roles = zone.agents.keys.filterMap (role? cache agents) := by
  have hentity : ∀ {entity role}, role? cache agents entity = some role → role.entity = entity :=
    fun hrole => (mem_of_last_for? (role?_eq_some hrole).1).2
  refine ⟨⟨zone.agents.keys.filterMap (role? cache agents), ?_, fun entity => ?_,
    fun role hmem => ?_, fun role hmem => ?_⟩, rfl⟩
  · rw [List.pairwise_map, List.pairwise_filterMap]
    refine zone.agents.keys_ascending.imp fun hlt role hrole role' hrole' => ?_
    rwa [hentity hrole, hentity hrole']
  · rw [← role?_is_some h, List.mem_map]
    constructor
    · rintro ⟨role, hmem, rfl⟩
      obtain ⟨entity, -, hrole⟩ := List.mem_filterMap.1 hmem
      rw [hentity hrole, hrole, Option.isSome_some]
    · intro hsome
      obtain ⟨role, hrole⟩ := Option.isSome_iff_exists.1 hsome
      exact ⟨role, List.mem_filterMap.2 ⟨entity, (hzone entity).2 hsome, hrole⟩, hentity hrole⟩
  · obtain ⟨entity, -, hrole⟩ := List.mem_filterMap.1 hmem
    rw [hentity hrole]
    exact (role?_eq_some hrole).1
  · obtain ⟨entity, -, hrole⟩ := List.mem_filterMap.1 hmem
    exact Cache.get?_eq_some (role?_eq_some hrole).2

/-- Agents in a zone of roles are after all updates what they would be alone. -/
theorem values_update_times
    (hzone : ∀ entity, zone.agents.get? entity =
      (role? cache agents entity).map (Role.joined · trace zone.id)) (elapsed times : Nat) :
    (updateTimes cache elapsed times zone).agents.values =
      (zone.agents.keys.filterMap (role? cache agents)).map fun role =>
        (role.joined trace zone.id).solo Demo.rules elapsed times := by
  rw [Table.values_eq, keys_update_times, List.map_filterMap]
  refine List.filterMap_congr fun entity hkey => ?_
  obtain ⟨agent, hagent⟩ := Option.isSome_iff_exists.1 (Table.mem_keys.1 hkey)
  obtain ⟨role, hrole, rfl⟩ := Option.map_eq_some_iff.1 ((hzone entity).symm.trans hagent)
  rw [hrole, Option.map_some]
  exact get?_update_times elapsed times hagent (role.behavior_joined trace zone.id)
    (role.refers_joined trace zone.id)

/-- What is shown of agents in a zone of roles is what is shown of their cast. -/
theorem result_text_joined {trees : List (Tree Demo.game)} (cast : Cast trees agents)
    (id : ZoneId) {elapsed times : Nat}
    (hvalues : zone.agents.values = cast.roles.map fun role =>
      (role.joined trace id).solo Demo.rules elapsed times) :
    resultText trace zone = cast.text trace elapsed times := by
  have hrows : zone.agents.values.map row = cast.roles.map fun role => role.line elapsed times := by
    rw [hvalues, List.map_map]
    exact List.map_congr_left fun role _ => role.row_joined trace id
  unfold resultText Cast.text
  cases trace with
  | false => simp only [hrows, Bool.false_eq_true, ↓reduceIte]
  | true =>
      have hrecordings : zone.agents.values.map traceRow =
          cast.roles.map fun role => role.recording elapsed times := by
        rw [hvalues, List.map_map]
        exact List.map_congr_left fun role _ => role.trace_row_joined id
      simp only [hrows, hrecordings, ↓reduceIte]

/-- A simulation in which all trees are known shows its cast. -/
theorem simulate_known {config : Config}
    (h : ∀ entry ∈ config.agents, (cache.get? entry.behavior).isSome) (times : Nat) :
    ∃ cast : Cast cache.trees config.agents, simulate config times cache =
      ⟨cast.text config.trace (Registry.milliseconds config.tickMs) times, .success⟩ := by
  obtain ⟨zone, hpopulate, hid, hget⟩ :=
    populate_known config.trace h (Zone.fresh ⟨0⟩)
  have hzone : ∀ entity, zone.agents.get? entity =
      (role? cache config.agents entity).map (Role.joined · config.trace zone.id) := by
    intro entity
    -- The zone starts out empty, so whoever is in it has a role.
    rw [hget, hid]
    exact Option.or_none
  obtain ⟨cast, hcast⟩ := exists_cast h fun entity => by
    rw [Table.mem_keys, hzone entity, Option.isSome_map]
  have hvalues := values_update_times hzone (Registry.milliseconds config.tickMs) times
  rw [← hcast] at hvalues
  refine ⟨cast, ?_⟩
  rw [simulate, hpopulate]
  exact congrArg (Report.mk · .success) (result_text_joined cast zone.id hvalues)

/-- The first agent of an unknown tree is the failure of a simulation. -/
theorem simulate_unknown {config : Config} {entry : AgentConfig} (hmem : entry ∈ config.agents)
    (h : ¬ (cache.get? entry.behavior).isSome) (times : Nat) :
    ∃ earlier first later, config.agents = earlier ++ first :: later ∧
      (∀ known ∈ earlier, (cache.get? known.behavior).isSome) ∧
      ¬ (cache.get? first.behavior).isSome ∧
      simulate config times cache =
        ⟨"", .failed (.unknownBehavior first.entity first.behavior)⟩ := by
  have hsome : (config.agents.find? fun entry => ¬ (cache.get? entry.behavior).isSome).isSome :=
    List.find?_isSome.2 ⟨entry, hmem, decide_eq_true h⟩
  obtain ⟨first, hfind⟩ := Option.isSome_iff_exists.1 hsome
  obtain ⟨hfirst, earlier, later, hagents, hearlier⟩ := List.find?_eq_some_iff_append.1 hfind
  have hunknown : ¬ (cache.get? first.behavior).isSome := of_decide_eq_true hfirst
  have hknown : ∀ known ∈ earlier, (cache.get? known.behavior).isSome := by
    simpa [Option.isSome_iff_ne_none] using hearlier
  have hpopulate := populate_unknown config.trace hknown
    (Option.not_isSome_iff_eq_none.1 hunknown) later (Zone.fresh ⟨0⟩)
  refine ⟨earlier, first, later, hagents, hknown, hunknown, ?_⟩
  rw [simulate, hagents, hpopulate]

end

/-! ## The whole run -/

section

variable {files : String → Option String} {path text : String} {found : Config}

/-- A configuration that can be read is simulated once its files have been loaded. -/
theorem run_config_eq (hfile : files path = some text) (hfound : Config.ofText? text = some found)
    (ticks : Option Nat) :
    runConfig (m := Id) files path ticks =
      let config := found.resolve ((Path.parent? path).getD ".")
      match loadAll (m := Id) files {} config.trees with
      | .error failure => ⟨"", .failed failure⟩
      | .ok cache => simulate config (ticks.getD config.ticks) cache := by
  simp only [runConfig, hfile, hfound, bind, pure]
  rfl

/-- A cache has the trees whose names it has. -/
theorem get?_is_some {trees : List (Tree Demo.game)} {names : List String}
    (h : trees.map Tree.name = names) (name : String) :
    ((⟨trees⟩ : Cache Demo.game).get? name).isSome ↔ name ∈ names :=
  h ▸ Cache.contains_iff

/-- The report of a simulation is about each entity on its own: the last entry for it decides which
agent its row is about, and the agent is shown as if it were alone. If a file or an agent is at
fault, the report is about the first one, files before agents. -/
theorem simulation_report (hfile : files path = some text)
    (hfound : Config.ofText? text = some found) (ticks : Option Nat) :
    let config := found.resolve ((Path.parent? path).getD ".")
    let elapsed := Registry.milliseconds config.tickMs
    let times := ticks.getD config.ticks
    let report : Report := perform (m := Id) files (.run path ticks)
    (∀ names, Named files config.trees names →
      ((∀ entry ∈ config.agents, entry.behavior ∈ names) →
        ∃ trees, List.Forall₂ (Holds files) config.trees trees ∧ trees.map Tree.name = names ∧
          ∃ cast : Cast trees config.agents,
            report = ⟨cast.text config.trace elapsed times, .success⟩ ∧
              ∀ role ∈ cast.roles, role.Told elapsed times) ∧
      (∀ entry ∈ config.agents, entry.behavior ∉ names →
        ∃ earlier first later, config.agents = earlier ++ first :: later ∧
          (∀ known ∈ earlier, known.behavior ∈ names) ∧ first.behavior ∉ names ∧
          report = ⟨"", .failed (.unknownBehavior first.entity first.behavior)⟩)) ∧
    ((∀ names, ¬ Named files config.trees names) →
      ∃ earlier first later names error, config.trees = earlier ++ first :: later ∧
        Named files earlier names ∧ Fault files names first error ∧
        report = ⟨"", .failed (.tree first error)⟩) := by
  intro config elapsed times report
  have hreport : report = match loadAll (m := Id) files {} config.trees with
      | .error failure => ⟨"", .failed failure⟩
      | .ok cache => simulate config times cache := run_config_eq hfile hfound ticks
  refine ⟨fun names hnamed => ?_, fun hunnamed => ?_⟩
  · obtain ⟨trees, hholds, hnames, hload⟩ := load_all_named hnamed
    rw [hload] at hreport
    have hknown := get?_is_some hnames
    refine ⟨fun hall => ?_, fun entry hmem hunknown => ?_⟩
    · obtain ⟨cast, hcast⟩ :=
        simulate_known (fun entry hmem => (hknown _).2 (hall entry hmem)) times
      exact ⟨trees, hholds, hnames, cast, hreport.trans hcast, fun role hrole =>
        role.told (cast.runs role hrole).2 elapsed times⟩
    · obtain ⟨earlier, first, later, hagents, hearlier, hfirst, hsimulate⟩ :=
        simulate_unknown hmem (mt (hknown _).1 hunknown) times
      exact ⟨earlier, first, later, hagents, fun known hmem => (hknown _).1 (hearlier known hmem),
        mt (hknown _).2 hfirst, hreport.trans hsimulate⟩
  · obtain ⟨names, hnamed⟩ | ⟨earlier, first, later, names, error, htrees, hnamed, hfault⟩ :=
      named_or_fault files config.trees
    · exact absurd hnamed (hunnamed names)
    · refine ⟨earlier, first, later, names, error, htrees, hnamed, hfault, ?_⟩
      rw [htrees, load_all_fault hnamed hfault later] at hreport
      exact hreport

end

/-- The files of a simulation of two entities, one of them with two entries and one paused. -/
def duoFiles (path : String) : Option String :=
  if path = "sim.yml" then
    some ("trees: [b]\nagents: [\x7bentity: 7, behavior: b, paused: true\x7d, " ++
      "\x7bentity: 2, behavior: b, paused: true\x7d, \x7bentity: 7, behavior: b\x7d]")
  else if path = "b" then some "\x7bname: b, tree: \x7btype: Idle\x7d\x7d"
  else none

def duoConfig : Config where
  trees := ["b"]
  agents := [⟨7, "b", true, []⟩, ⟨2, "b", true, []⟩, ⟨7, "b", false, []⟩]

/-- The one file of the simulation of two has one tree. -/
theorem duo_files_named : Named duoFiles ["b"] ["b"] := by
  have hname : (holding duoFiles "b").toOption.map Tree.name = some "b" := by
    decide +kernel
  obtain ⟨tree, htree, hb⟩ := Option.map_eq_some_iff.1 hname
  cases hheld : holding duoFiles "b" with
  | error error => simp [hheld, Except.toOption] at htree
  | ok made =>
      obtain rfl : made = tree := by simpa [hheld, Except.toOption] using htree
      exact ⟨.cons ⟨made, hheld, hb⟩ .nil, List.nodup_singleton "b"⟩

/-- The second entry of an entity counts, and a paused agent is left as it is. -/
theorem simulation_report_duo :
    let report : Report := perform (m := Id) duoFiles (.run "sim.yml" (some 4))
    ∃ trees, List.Forall₂ (Holds duoFiles) ["b"] trees ∧
      ∃ cast : Cast trees duoConfig.agents,
        report = ⟨cast.text false (Registry.milliseconds 100) 4, .success⟩ ∧
          (∀ role ∈ cast.roles, role.Told (Registry.milliseconds 100) 4) ∧
          report.output =
            "entity\tbehavior\tstatus\tticks\n2\tb\tUnknown\t0\n7\tb\tRunning\t4\n" := by
  intro report
  have hfound : (duoFiles "sim.yml").bind Config.ofText? = some duoConfig := by
    decide +kernel
  obtain ⟨text, hfile, hconfig⟩ := Option.bind_eq_some_iff.1 hfound
  have htrees : (duoConfig.resolve ((Path.parent? "sim.yml").getD ".")).trees = ["b"] := by
    decide +kernel
  obtain ⟨hloaded, -⟩ := simulation_report hfile hconfig (some 4)
  obtain ⟨hshown, -⟩ := hloaded ["b"] (htrees ▸ duo_files_named)
  obtain ⟨trees, hholds, -, cast, hreport, htold⟩ := hshown (by decide +kernel)
  have hrun : report = _ := run_config_eq hfile hconfig (some 4)
  refine ⟨trees, htrees ▸ hholds, cast, hreport, htold, ?_⟩
  rw [hrun]
  decide +kernel

end Simulation

end BehaviorTree
