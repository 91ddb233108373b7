import BehaviorTree.Proofs.Survey
import BehaviorTree.Simulation.Demo
import Mathlib.Data.List.Infix

/-!
# What comes of a build

A build does what the survey of its blueprint says: without a fault it makes something that
mirrors the blueprint, and otherwise it stops at the first fault (`Build.Meets`). Either way the
nodes that were made are the first ones of the blueprint in order, and the supply is what they
left of it (`Workshop.Made`). Both are carried along compositions, so every step of a build has one
lemma here and the recursion over the blueprint puts them together.
-/

namespace BehaviorTree

variable {G : Game} {α β : Type}

/-! ## Workshops -/

/-- The node that a note tells of, by its type and its arguments. -/
def BuildNote.node? : BuildNote → Option (String × Arguments)
  | made .node kind args => some (kind, args)
  | made .condition _ _ | made .filter _ _ | reported _ => none

namespace Workshop

/-- The nodes that were made, in order, by their types and arguments. -/
def nodes (shop : Workshop) : List (String × Arguments) :=
  shop.notes.toList.filterMap BuildNote.node?

/-- Between two states of a workshop the described nodes were made, in order, and none else. -/
structure Made (registry : Registry G) (specs : List NodePlan) (before after : Workshop) :
    Prop where
  known : ∀ turn ∈ NodePlan.turns registry before.supply specs,
    (registry.createNode? turn.1.kind turn.1.arguments turn.2).isSome
  supply : after.supply = NodePlan.drawAll registry before.supply specs
  nodes : after.nodes = before.nodes ++ specs.map fun spec => (spec.kind, spec.arguments)

variable {registry : Registry G}

/-- Nothing is made where nothing is described. -/
theorem Made.refl (shop : Workshop) : shop.Made registry [] shop :=
  ⟨by simp [NodePlan.turns], rfl, by simp⟩

/-- What is made in two steps is what both descriptions say, in order. -/
theorem Made.trans {first second third : Workshop} {early late : List NodePlan}
    (hfirst : first.Made registry early second) (hsecond : second.Made registry late third) :
    first.Made registry (early ++ late) third where
  known := by
    rw [NodePlan.turns_append, List.forall_mem_append, ← hfirst.supply]
    exact ⟨hfirst.known, hsecond.known⟩
  supply := by rw [hsecond.supply, hfirst.supply, NodePlan.draw_all_append]
  nodes := by rw [hsecond.nodes, hfirst.nodes, List.map_append, List.append_assoc]

/-- A note that tells of no node is no part of what is made. -/
theorem made_note (shop : Workshop) {what : BuildNote} (h : what.node? = none) :
    shop.Made registry [] { shop with notes := shop.notes.push what } :=
  ⟨by simp [NodePlan.turns], rfl, by simp [Workshop.nodes, h]⟩

end Workshop

namespace Build

/-! ## Outcomes -/

/-- What comes of a build in a workshop, and the workshop after it. -/
def outcome (build : Build α) (shop : Workshop) : Except LoadError α × Workshop :=
  build.run.run shop

/-- To look at the workshop changes nothing. -/
theorem outcome_get (shop : Workshop) : (get : Build Workshop).outcome shop = (.ok shop, shop) :=
  rfl

/-- A step of a build works with what the one before it has made, and is left out if that one
failed. -/
theorem outcome_bind (first : Build α) (next : α → Build β) (shop : Workshop) :
    (first >>= next).outcome shop =
      match first.outcome shop with
      | (.ok value, after) => (next value).outcome after
      | (.error error, after) => (.error error, after) := by
  show (first.run.run shop >>= fun pair => (ExceptT.bindCont next pair.1).run pair.2) = _
  cases h : first.outcome shop with
  | mk result after =>
      rw [outcome] at h
      cases result with
      | ok value => simp [h]; rfl
      | error error => simp [h]; rfl

/-- A build makes something good if there are no faults and stops at the first one otherwise.
The nodes that it makes are the described ones, in order, up to where it stops. -/
inductive Meets (registry : Registry G) (build : Build α) (shop : Workshop)
    (specs : List NodePlan) (good : α → Prop) : List LoadError → Prop where
  | done (value : α) (after : Workshop) (hrun : build.outcome shop = (.ok value, after))
      (hmade : shop.Made registry specs after) (hgood : good value) :
      Meets registry build shop specs good []
  | stopped (fault : LoadError) (later : List LoadError) (made : List NodePlan)
      (after : Workshop) (hrun : build.outcome shop = (.error fault, after))
      (hinitial : made <+: specs) (hmade : shop.Made registry made after) :
      Meets registry build shop specs good (fault :: later)

namespace Meets

variable {registry : Registry G} {shop : Workshop} {specs more : List NodePlan}
  {faults later : List LoadError}

/-- What a build makes may be known to be better. -/
theorem mono {build : Build α} {good better : α → Prop}
    (h : build.Meets registry shop specs good faults) (hgood : ∀ value, good value → better value) :
    build.Meets registry shop specs better faults := by
  cases h with
  | done value after hrun hmade hvalue => exact .done value after hrun hmade (hgood value hvalue)
  | stopped fault later made after hrun hinitial hmade =>
      exact .stopped fault later made after hrun hinitial hmade

/-- A value that is good is made without a fault. -/
theorem pure {good : α → Prop} {value : α} (h : good value) :
    (Pure.pure value : Build α).Meets registry shop [] good [] :=
  .done value shop rfl (.refl shop) h

/-- The faults of a composition are those of its first part and then those of the second. -/
theorem bind {first : Build α} {next : α → Build β} {good : α → Prop} {goal : β → Prop}
    (h : first.Meets registry shop specs good faults)
    (hnext : ∀ value after, shop.Made registry specs after → good value →
      (next value).Meets registry after more goal later) :
    (first >>= next).Meets registry shop (specs ++ more) goal (faults ++ later) := by
  cases h with
  | stopped fault faults made after hrun hinitial hmade =>
      -- The second part is not reached, and its faults come behind the one that was met.
      exact .stopped fault _ made after (by rw [outcome_bind, hrun])
        (hinitial.trans (List.prefix_append specs more)) hmade
  | done value after hrun hmade hvalue =>
      have hsecond : (first >>= next).outcome shop = (next value).outcome after := by
        rw [outcome_bind, hrun]
      cases hnext value after hmade hvalue with
      | done result last hlast hmore hgoal =>
          exact .done result last (hsecond.trans hlast) (hmade.trans hmore) hgoal
      | stopped fault faults made last hlast hinitial hmore =>
          exact .stopped fault faults (specs ++ made) last (hsecond.trans hlast)
            ((List.prefix_append_right_inj specs).2 hinitial) (hmade.trans hmore)

end Meets

/-! ## Steps of a build -/

variable {registry : Registry G} {shop : Workshop}

/-- An operation of assembly stops a build if it is refused. -/
theorem assemble_meets {attached : Except AssemblyError α} {refusal : Option AssemblyError}
    {good : α → Prop}
    (h : match refusal with
      | some error => attached = .error error
      | none => ∃ value, attached = .ok value ∧ good value) :
    (assemble attached).Meets registry shop [] good (misfits refusal) := by
  cases refusal with
  | some error => exact .stopped _ [] [] shop (by rw [h]; rfl) List.nil_prefix (.refl shop)
  | none =>
      obtain ⟨value, hvalue, hgood⟩ := h
      exact .done value shop (by rw [hvalue]; rfl) (.refl shop) hgood

/-- A filter is made by what the registry has for its kind, and only an unknown kind is a fault. -/
theorem create_filter_meets (kind : String) (args : Arguments) :
    (createFilter registry kind args).Meets registry shop []
      (fun filter => registry.createFilter? kind args = some filter)
      (if (registry.createFilter? kind args).isSome then [] else [.unknownFilter kind]) := by
  unfold createFilter
  cases hmade : registry.createFilter? kind args with
  | some filter => exact .done filter _ rfl (shop.made_note rfl) rfl
  | none => exact .stopped _ [] [] _ rfl List.nil_prefix (shop.made_note rfl)

/-- A condition is made by what the registry has for its kind, and only an unknown kind is a fault.
-/
theorem create_condition_meets (kind : String) (args : Arguments) :
    (createCondition registry kind args).Meets registry shop []
      (fun condition => registry.createCondition? kind args = some condition)
      (if (registry.createCondition? kind args).isSome then [] else [.unknownCondition kind]) := by
  unfold createCondition
  cases hmade : registry.createCondition? kind args with
  | some condition => exact .done condition _ rfl (shop.made_note rfl) rfl
  | none => exact .stopped _ [] [] _ rfl List.nil_prefix (shop.made_note rfl)

/-- A node of a known kind is made, takes its identities from the supply and is noted. -/
theorem create_node_outcome {kind : String} {args : Arguments} {node : Node G} {rest : Supply}
    (h : registry.createNode? kind args shop.supply = some (node, rest)) :
    (createNode registry kind args).outcome shop =
      (.ok node, ⟨rest, shop.notes.push (.made .node kind args)⟩) := by
  rw [createNode, outcome_bind, outcome_get]
  simp only [h]
  rfl

/-- A node that is made takes what its factory draws. -/
theorem create_node_meets (plan : NodePlan) :
    (createNode registry plan.kind plan.arguments).Meets registry shop [plan]
      (fun node => ∃ rest, registry.createNode? plan.kind plan.arguments shop.supply =
        some (node, rest))
      (if (registry.createNode? plan.kind plan.arguments shop.supply).isSome then []
        else [.unknownNode plan.kind]) := by
  cases hmade : registry.createNode? plan.kind plan.arguments shop.supply with
  | some drawn =>
      refine .done drawn.1 _ (create_node_outcome hmade) ⟨?_, ?_, ?_⟩ ⟨drawn.2, rfl⟩
      · simp [NodePlan.turns, hmade]
      · simp [NodePlan.drawAll, NodePlan.draw, hmade]
      · simp [Workshop.nodes, BuildNote.node?]
  | none =>
      have hrun : (createNode registry plan.kind plan.arguments).outcome shop =
          (do
            reportUnknown .node plan.kind
            throw (.unknownNode plan.kind) : Build (Node G)).outcome shop := by
        rw [createNode, outcome_bind, outcome_get]
        simp only [hmade]
      exact .stopped _ [] [] _ hrun List.nil_prefix (shop.made_note rfl)

/-- To note something that no node is made by changes nothing else in a workshop. -/
theorem note_meets {what : BuildNote} (h : what.node? = none) :
    (note what).Meets registry shop [] (fun _ => True) [] :=
  .done () _ rfl (shop.made_note h) trivial

end Build

/-! ## Conditions -/

variable {registry : Registry G} {shop : Workshop}

/-- The build of a filter makes what the registry has for it, or meets the faults of its plan. -/
theorem FilterPlan.build_meets (plan : FilterPlan) :
    (plan.build registry).Meets registry shop []
      (fun filter => registry.createFilter? plan.kind (.ofValues plan.args) = some filter)
      (plan.faults registry) :=
  Build.create_filter_meets plan.kind (.ofValues plan.args)

namespace ConditionPlan

/-- To attach a planned filter extends a condition by it, or meets the faults of that filter. -/
theorem attach_filter_meets (made : Condition G) (filter : Option FilterPlan) :
    (attachFilter registry made filter).Meets registry shop []
      (fun condition => ∃ attached, made.Extends attached [] condition ∧
        Sieves registry made filter attached)
      (filterFaults registry (some made) filter) := by
  cases filter with
  | none => exact .pure ⟨made.filter?, .refl made, rfl⟩
  | some plan =>
      refine plan.build_meets.bind fun filter _ _ hfilter => ?_
      refine (Build.assemble_meets (made.set_filter_extends filter)).mono fun condition hmore => ?_
      exact ⟨some filter, hmore, filter, hfilter, rfl⟩

mutual

/-- A condition is built as it is described. -/
theorem build_meets : ∀ (plan : ConditionPlan) (shop : Workshop),
    (plan.build registry).Meets registry shop [] (plan.Mirrors registry) (plan.faults registry)
  | mk kind args filter conditions, shop => by
      rw [build, faults]
      refine (Build.create_condition_meets kind (.ofValues args)).bind fun made after _ hmade => ?_
      rw [hmade]
      refine (attach_filter_meets made filter).bind ?_
      rintro condition later - ⟨attached, hextends, hsieves⟩
      refine (attach_all_meets hextends conditions later).mono ?_
      rintro final ⟨inside, hfinal, hmirrors⟩
      exact ⟨made, attached, inside, hmade, hfinal, hsieves, hmirrors⟩

/-- Nested conditions are attached in order, each built completely before. -/
theorem attach_all_meets {made condition : Condition G} {attached : Option (Filter G)}
    {inside : List (Condition G)} (h : made.Extends attached inside condition) :
    ∀ (plans : List ConditionPlan) (shop : Workshop),
      (attachAll registry condition plans).Meets registry shop []
        (fun final => ∃ more, made.Extends attached (inside ++ more) final ∧
          MirrorsAll registry plans more)
        (nestedFaults registry (some made) inside.length plans)
  | [], shop => .pure ⟨[], by rwa [List.append_nil], rfl⟩
  | plan :: rest, shop => by
      rw [attachAll, nestedFaults]
      refine (build_meets plan shop).bind fun inner after _ hinner => ?_
      refine (Build.assemble_meets (h.add_condition inner)).bind fun condition later _ hmore => ?_
      have hrest := attach_all_meets hmore rest later
      rw [List.length_append, List.length_singleton] at hrest
      refine hrest.mono ?_
      rintro final ⟨more, hfinal, hmirrors⟩
      refine ⟨inner :: more, ?_, inner, more, rfl, hinner, hmirrors⟩
      rwa [List.append_assoc] at hfinal

end

end ConditionPlan

/-! ## Nodes -/

namespace NodePlan

/-- To attach a planned condition extends a node by its gate, or meets the faults of that
condition. -/
theorem attach_condition_meets {made : Node G} (condition : Option ConditionPlan) :
    (attachCondition registry made condition).Meets registry shop []
      (fun node => ∃ gate, made.Extends gate [] node ∧ Gates registry made condition gate)
      (condition.toList.flatMap (ConditionPlan.faults registry)) := by
  cases condition with
  | none => exact .pure ⟨made.gate, .refl made, rfl⟩
  | some plan =>
      have hattached : ∀ condition after, shop.Made registry [] after →
          plan.Mirrors registry condition →
            (pure (made.setCondition condition) : Build (Node G)).Meets registry after []
              (fun node => ∃ gate, made.Extends gate [] node ∧
                Gates registry made (some plan) gate) [] :=
        fun condition _ _ hmirrors => .pure ⟨some condition,
          (Node.Extends.refl made).set_condition condition, condition, hmirrors, rfl⟩
      rw [Option.toList_some, List.flatMap_singleton, ← List.append_nil (plan.faults registry)]
      exact (plan.build_meets shop).bind hattached

mutual

/-- A node is built as it is described. -/
theorem build_meets : ∀ (plan : NodePlan) (shop : Workshop),
    (plan.build registry).Meets registry shop plan.specs (plan.Mirrors registry shop.supply)
      (plan.faults registry shop.supply)
  | mk kind args condition children, shop => by
      rw [build, faults, Option.isSome_map]
      -- The nodes are this one, none for its condition, and those of its children.
      show Build.Meets registry _ shop ([mk kind args condition children] ++ ([] ++ _)) _ _
      refine (Build.create_node_meets (mk kind args condition children)).bind ?_
      rintro made after hafter ⟨rest, hmade⟩
      have hcreate : registry.createNode? kind (.ofValues args) shop.supply = some (made, rest) :=
        hmade
      rw [hcreate]
      refine (attach_condition_meets condition).bind ?_
      rintro node later hlater ⟨gate, hextends, hgates⟩
      have hsupply : later.supply = draw registry shop.supply (mk kind args condition children) :=
        hlater.supply.trans hafter.supply
      rw [← hsupply]
      refine (attach_children_meets hextends children later).mono ?_
      rintro final ⟨below, hfinal, hmirrors⟩
      exact ⟨made, rest, gate, below, hmade, hfinal, hgates, hsupply ▸ hmirrors⟩

/-- Children are attached in order, each built completely before. -/
theorem attach_children_meets {made node : Node G} {gate : Option (Condition G)}
    {below : List (Node G)} (h : made.Extends gate below node) :
    ∀ (plans : List NodePlan) (shop : Workshop),
      (attachChildren registry node plans).Meets registry shop (specsAll plans)
        (fun final => ∃ more, made.Extends gate (below ++ more) final ∧
          MirrorsAll registry shop.supply plans more)
        (childFaults registry (some made) below.length shop.supply plans)
  | [], shop => .pure ⟨[], by rwa [List.append_nil], rfl⟩
  | plan :: rest, shop => by
      rw [attachChildren, childFaults, specsAll]
      refine (build_meets plan shop).bind fun child after hafter hchild => ?_
      rw [← hafter.supply]
      refine (Build.assemble_meets (h.add_child child)).bind fun node later hlater hmore => ?_
      -- To attach a child draws nothing: its siblings find the supply that its own nodes left.
      have hsupply : later.supply = after.supply := hlater.supply
      rw [← hsupply]
      have hrest := attach_children_meets hmore rest later
      rw [List.length_append, List.length_singleton] at hrest
      refine hrest.mono ?_
      rintro final ⟨more, hfinal, hmirrors⟩
      refine ⟨child :: more, ?_, child, more, rfl, hchild, ?_⟩
      · rwa [List.append_assoc] at hfinal
      · rwa [← hafter.supply, ← hsupply]

end

end NodePlan

/-! ## Trees -/

namespace Blueprint

/-- What a build does once the top of the tree has its identity. -/
def finish (registry : Registry G) (plan : Blueprint) (id : NodeId) : Build (Tree G) := do
  let child ← plan.tree.build registry
  let tree ← Build.assemble ((Tree.named id plan.name).addChild child)
  Build.note (.reported (loaded tree))
  return tree

/-- A workshop in which the top of a tree has just taken its identity. -/
def topped (shop : Workshop) : Workshop := { shop with supply := shop.supply.issue.2 }

/-- The top of a tree takes its identity before anything else is done. -/
theorem build_outcome (plan : Blueprint) :
    (plan.build registry).outcome shop =
      (plan.finish registry shop.supply.issue.1).outcome (topped shop) := rfl

/-- Below its top a tree is built as it is described. -/
theorem finish_meets (registry : Registry G) (shop : Workshop) (plan : Blueprint) :
    (plan.finish registry shop.supply.issue.1).Meets registry (topped shop) plan.tree.specs
      (plan.Mirrors registry shop.supply) (plan.faults registry shop.supply) := by
  unfold finish
  rw [← List.append_nil plan.tree.specs, ← List.append_nil (plan.faults registry shop.supply)]
  refine (plan.tree.build_meets (topped shop)).bind fun child after _ hchild => ?_
  let tree : Tree G := { Tree.named shop.supply.issue.1 plan.name with child := some child }
  let top : Tree G := Tree.named shop.supply.issue.1 plan.name
  have hassemble : (Build.assemble (top.addChild child)).Meets registry after []
      (fun made => made = tree) (misfits none) := Build.assemble_meets ⟨tree, rfl, rfl⟩
  refine hassemble.bind ?_
  rintro _ _ - rfl
  refine (Build.note_meets rfl).bind fun _ _ _ _ => .pure ?_
  exact ⟨rfl, rfl, child, rfl, hchild⟩

/-- A build makes a tree that mirrors a blueprint without faults, or stops at the first fault. -/
theorem build_cases (registry : Registry G) (plan : Blueprint) (shop : Workshop) :
    (∃ tree, ((plan.build registry).outcome shop).1 = .ok tree ∧
      plan.faults registry shop.supply = [] ∧ plan.Mirrors registry shop.supply tree) ∨
    ∃ fault later, ((plan.build registry).outcome shop).1 = .error fault ∧
      plan.faults registry shop.supply = fault :: later := by
  rw [plan.build_outcome]
  have hmeets := plan.finish_meets registry shop
  generalize plan.faults registry shop.supply = faults at hmeets ⊢
  cases hmeets with
  | done tree after hrun _ hmirrors => exact .inl ⟨tree, congrArg Prod.fst hrun, rfl, hmirrors⟩
  | stopped fault later made after hrun => exact .inr ⟨fault, later, congrArg Prod.fst hrun, rfl⟩

/-- What is built mirrors the blueprint. -/
theorem mirrors_of_build {plan : Blueprint} {tree : Tree G}
    (h : ((plan.build registry).outcome shop).1 = .ok tree) :
    plan.Mirrors registry shop.supply tree := by
  obtain ⟨other, hresult, -, hmirrors⟩ | ⟨fault, later, hresult, -⟩ :=
    build_cases registry plan shop
  · exact Except.ok.inj (hresult.symm.trans h) ▸ hmirrors
  · exact nomatch hresult.symm.trans h

/-- A blueprint is built just in case it is well formed. What is built mirrors the blueprint,
and a build that fails tells the first fault of the blueprint. -/
theorem build_accepts (registry : Registry G) (plan : Blueprint) (shop : Workshop) :
    let result := ((plan.build registry).outcome shop).1
    ((∃ tree, result = .ok tree) ↔ plan.WellFormed registry shop.supply) ∧
      (∀ tree, result = .ok tree → plan.Mirrors registry shop.supply tree) ∧
        ∀ error, result = .error error →
          (plan.faults registry shop.supply).head? = some error := by
  intro result
  have hwell : plan.faults registry shop.supply = [] ↔ plan.WellFormed registry shop.supply :=
    plan.tree.faults_eq_nil shop.supply.issue.2
  refine ⟨?_, fun tree => mirrors_of_build, ?_⟩
  · rw [← hwell]
    obtain ⟨tree, hresult, hfaults, -⟩ | ⟨fault, later, hresult, hfaults⟩ :=
      build_cases registry plan shop
    · exact iff_of_true ⟨tree, hresult⟩ hfaults
    · refine iff_of_false ?_ (by simp [hfaults])
      rintro ⟨tree, htree⟩
      exact nomatch hresult.symm.trans htree
  · intro error herror
    obtain ⟨tree, hresult, -⟩ | ⟨fault, later, hresult, hfaults⟩ := build_cases registry plan shop
    · exact nomatch hresult.symm.trans herror
    · rw [hfaults, List.head?_cons, Except.error.inj (hresult.symm.trans herror)]

/-- What is wrong with a surplus child comes before its being one too many. -/
example : (NodePlan.mk "Inverter" [] none
    [.mk "Idle" [] none [], .mk "Wait" [] none [.mk "Walk" [] none []]]).faults
      Demo.registry ⟨0⟩ =
    [.unknownNode "Wait", .unknownNode "Walk", .malformedTree (.childAlreadySet "Inverter")] := by
  decide +kernel

end Blueprint

end BehaviorTree
