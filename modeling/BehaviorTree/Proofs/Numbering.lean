import BehaviorTree.Proofs.Loading
import BehaviorTree.Proofs.Subtree
import BehaviorTree.Simulation.Demo

/-!
# The numbering of loaded trees

A registry is `Single` if each factory of nodes makes one node and draws one identity for it, as
the built-in and the demonstration factories do. With such a registry the nodes of a loaded tree
are numbered in preorder without a gap, the top first (`Tree.NumberedFrom`).

Loads draw from one supply, so no identity is issued twice, whether they succeed or fail
(`Load.run_all_numbering`).
-/

namespace BehaviorTree

variable {G : Game}

/-! ## Factories that draw one identity -/

namespace Registry

/-- A factory makes one node, without children, and draws one identity for it. -/
def DrawsOne (factory : NodeFactory G) : Prop :=
  ∀ args supply, (factory args supply).1.id = supply.issue.1 ∧
    (factory args supply).1.children = [] ∧ (factory args supply).2 = supply.issue.2

/-- Every factory of nodes has a property. -/
def AllNodes (good : NodeFactory G → Prop) (registry : Registry G) : Prop :=
  ∀ name factory, registry.nodes.get? name = some factory → good factory

/-- An entry is no factory of nodes, or one that has a property. -/
def Entry.Suits (good : NodeFactory G → Prop) : Entry G → Prop
  | .node _ factory => good factory
  | .condition _ _ | .filter _ _ => True

section AllNodes

variable {good : NodeFactory G → Prop}

/-- A registry without factories has none that lacks a property. -/
theorem empty_all_nodes : (empty : Registry G).AllNodes good := fun name factory h => by
  simp [empty, Shelf.get?] at h

/-- A registry whose factories have a property may take on one more that has it. -/
theorem AllNodes.register {registry : Registry G} (h : registry.AllNodes good) {entry : Entry G}
    (hentry : entry.Suits good) : (registry.register entry).value.2.AllNodes good := by
  cases entry with
  | node name factory =>
      intro other found hfound
      simp only [Registry.register, registerNode, registration, Shelf.get?_add] at hfound
      cases hold : registry.nodes.get? other with
      | some old =>
          rw [hold] at hfound
          obtain rfl := Option.some.inj hfound
          exact h other old hold
      | none =>
          rw [hold, Option.none_or, Option.ite_none_right_eq_some] at hfound
          obtain rfl := Option.some.inj hfound.2
          exact hentry
  | condition | filter => exact h

/-- A registry whose factories have a property may take on more that have it. -/
theorem AllNodes.register_all {registry : Registry G} (h : registry.AllNodes good)
    {entries : List (Entry G)} (hentries : ∀ entry ∈ entries, entry.Suits good) :
    (registry.registerAll entries).value.AllNodes good := by
  induction entries generalizing registry with
  | nil => exact h
  | cons entry rest ih =>
      obtain ⟨hentry, hrest⟩ := List.forall_mem_cons.1 hentries
      exact ih (h.register hentry) hrest

end AllNodes

/-- Every factory of nodes draws one identity. -/
def Single (registry : Registry G) : Prop := registry.AllNodes DrawsOne

/-- A factory that makes one node without children from one identity draws one. -/
theorem single_draws_one {make : Arguments → Head G → Node G}
    (h : ∀ args head, (make args head).id = head.id ∧ (make args head).children = []) :
    DrawsOne (single make) :=
  fun args _ => ⟨(h args _).1, (h args _).2, rfl⟩

/-- The factories of the engine draw one identity each. -/
theorem builtins_single : (builtins : Registry G).Single := by
  refine empty_all_nodes.register_all ?_
  simp only [builtinEntries, List.forall_mem_cons, List.not_mem_nil, false_imp_iff, implies_true,
    Entry.Suits, and_true]
  refine ⟨?_, ?_, ?_, ?_, ?_, ?_, ?_, ?_, ?_, ?_, ?_⟩ <;>
    exact single_draws_one fun _ _ => ⟨rfl, rfl⟩

end Registry

/-- The factories of the demonstration draw one identity each. -/
theorem Demo.registry_single : Demo.registry.Single := by
  refine Registry.builtins_single.register_all ?_
  simp only [Demo.entries, List.forall_mem_cons, List.not_mem_nil, false_imp_iff, implies_true,
    Registry.Entry.Suits, and_true]
  exact ⟨Registry.single_draws_one fun _ _ => ⟨rfl, rfl⟩,
    Registry.single_draws_one fun _ _ => ⟨rfl, rfl⟩⟩

/-! ## Nodes in preorder -/

namespace NodePlan

variable {registry : Registry G}

/-- A node was made by the described factory from the described arguments, with the identity
that was due. -/
def MadeAs (registry : Registry G) (plan : NodePlan) (node : Node G) : Prop :=
  ∃ made rest, registry.createNode? plan.kind plan.arguments ⟨node.id.raw⟩ = some (made, rest) ∧
    node.bare = made.bare

/-- Some nodes were made as described, one by one, and numbered from the next identity of a
supply without a gap. -/
structure Numbers (registry : Registry G) (supply : Supply) (specs : List NodePlan)
    (nodes : List (Node G)) : Prop where
  made : List.Forall₂ (MadeAs registry) specs nodes
  ids : nodes.map Node.id = (List.range' supply.next specs.length).map NodeId.mk
  rest : (drawAll registry supply specs).next = supply.next + specs.length

/-- No nodes are numbered without a gap. -/
theorem Numbers.nil (supply : Supply) : Numbers registry supply [] [] := ⟨.nil, rfl, rfl⟩

/-- Nodes that go on numbering where others stopped are numbered together with them. -/
theorem Numbers.append {supply : Supply} {early late : List NodePlan} {before after : List (Node G)}
    (hfirst : Numbers registry supply early before)
    (hsecond : Numbers registry (drawAll registry supply early) late after) :
    Numbers registry supply (early ++ late) (before ++ after) where
  made := List.rel_append hfirst.made hsecond.made
  ids := by
    rw [List.map_append, hfirst.ids, hsecond.ids, hfirst.rest, ← List.map_append,
      List.length_append, List.range'_append_1]
  rest := by
    rw [draw_all_append, hsecond.rest, hfirst.rest, List.length_append, Nat.add_assoc]

/-- What a factory of a single registry makes. -/
theorem draws_one_of_create_node (h : registry.Single) {plan : NodePlan} {supply rest : Supply}
    {made : Node G} (hmade : registry.createNode? plan.kind plan.arguments supply =
      some (made, rest)) :
    made.id = supply.issue.1 ∧ made.children = [] ∧ rest = supply.issue.2 := by
  obtain ⟨factory, hfactory, hdrawn⟩ := Option.map_eq_some_iff.1 hmade
  have hone := h _ factory hfactory plan.arguments supply
  rwa [hdrawn] at hone

/-- A node of a known kind draws the next identity and no other. -/
theorem draw_single (h : registry.Single) {plan : NodePlan} {supply : Supply}
    (hknown : (registry.createNode? plan.kind plan.arguments supply).isSome) :
    draw registry supply plan = supply.issue.2 := by
  obtain ⟨⟨made, rest⟩, hmade⟩ := Option.isSome_iff_exists.1 hknown
  rw [draw, hmade]
  exact (draws_one_of_create_node h hmade).2.2

/-- As many identities are drawn as nodes are made. -/
theorem next_draw_all (h : registry.Single) {specs : List NodePlan} {supply : Supply}
    (hknown : ∀ turn ∈ turns registry supply specs,
      (registry.createNode? turn.1.kind turn.1.arguments turn.2).isSome) :
    (drawAll registry supply specs).next = supply.next + specs.length := by
  induction specs generalizing supply with
  | nil => rfl
  | cons plan rest ih =>
      obtain ⟨hplan, hrest⟩ := List.forall_mem_cons.1 hknown
      have hdraw : draw registry supply plan = supply.issue.2 := draw_single h hplan
      show (drawAll registry (draw registry supply plan) rest).next = _
      rw [ih hrest, hdraw, List.length_cons, Supply.issue_snd_next]
      omega

mutual

/-- A node that mirrors its description is numbered in preorder. -/
theorem Mirrors.numbers (h : registry.Single) : ∀ (plan : NodePlan) {supply : Supply}
    {node : Node G}, plan.Mirrors registry supply node →
      Numbers registry supply plan.specs node.preorder
  | mk kind args condition children, supply, node, hmirrors => by
      obtain ⟨made, rest, gate, below, hmade, hextends, -, hbelow⟩ := hmirrors
      let plan := mk kind args condition children
      have hcreate : registry.createNode? plan.kind plan.arguments supply = some (made, rest) :=
        hmade
      obtain ⟨hid, hchildless, -⟩ := draws_one_of_create_node h hcreate
      have hnode : node.id = supply.issue.1 := by
        rw [← hid, ← node.id_bare, ← made.id_bare, hextends.bare]
      have hdraw : draw registry supply plan = supply.issue.2 :=
        draw_single h (by rw [hcreate]; rfl)
      have hself : Numbers registry supply [plan] [node] := by
        refine ⟨.cons ⟨made, rest, ?_, hextends.bare⟩ .nil, ?_, ?_⟩
        · rw [hnode]
          exact hcreate
        · simp [hnode]
        · exact congrArg Supply.next hdraw
      rw [Node.preorder_eq, hextends.children, hchildless, List.nil_append]
      exact hself.append (MirrorsAll.numbers h children hbelow)

/-- The nodes of built siblings, in preorder, are numbered from the next identity without a gap. -/
theorem MirrorsAll.numbers (h : registry.Single) : ∀ (plans : List NodePlan) {supply : Supply}
    {below : List (Node G)}, MirrorsAll registry supply plans below →
      Numbers registry supply (specsAll plans) (below.flatMap Node.preorder)
  | [], supply, below, hmirrors => by
      obtain rfl : below = [] := hmirrors
      exact .nil supply
  | plan :: rest, supply, below, hmirrors => by
      obtain ⟨first, later, rfl, hfirst, hlater⟩ := hmirrors
      exact (Mirrors.numbers h plan hfirst).append (MirrorsAll.numbers h rest hlater)

end

end NodePlan

/-! ## Numbered trees -/

/-- Among nodes that are numbered without a gap an identity is found at its distance from the
first. -/
theorem find?_of_range {nodes : List (Node G)} {start : Nat}
    (h : nodes.map Node.id = (List.range' start nodes.length).map NodeId.mk) (id : NodeId) :
    nodes.find? (fun node => node.id == id) =
      if start ≤ id.raw then nodes[id.raw - start]? else none := by
  induction nodes generalizing start with
  | nil => simp
  | cons node rest ih =>
      obtain ⟨hnode, hrest⟩ : node.id = ⟨start⟩ ∧
          rest.map Node.id = (List.range' (start + 1) rest.length).map NodeId.mk := by
        simpa [List.range'_succ] using h
      rw [List.find?_cons, hnode, ih hrest]
      by_cases hid : id = ⟨start⟩
      · subst hid
        simp
      · have hraw : id.raw ≠ start := fun heq => hid (congrArg NodeId.mk heq)
        rw [beq_eq_false_iff_ne.2 (Ne.symm hid)]
        dsimp only
        by_cases hle : start ≤ id.raw
        · have hlt : start + 1 ≤ id.raw := by omega
          rw [if_pos hle, if_pos hlt, show id.raw - start = id.raw - (start + 1) + 1 by omega,
            List.getElem?_cons_succ]
        · rw [if_neg hle, if_neg (by omega)]

/-- The top of a tree has a number, and the nodes below it have the numbers that follow, in
preorder. Each of them was made as described, and they are counted and found by their numbers. -/
structure Tree.NumberedFrom (registry : Registry G) (start : Nat) (specs : List NodePlan)
    (tree : Tree G) : Prop where
  top : tree.id = ⟨start⟩
  made : List.Forall₂ (NodePlan.MadeAs registry) specs tree.toNode.descendants
  ids : tree.toNode.descendants.map Node.id =
    (List.range' (start + 1) specs.length).map NodeId.mk
  count : tree.count = specs.length + 1
  find? : ∀ id, tree.find? id =
    if start < id.raw then tree.toNode.descendants[id.raw - (start + 1)]? else none

/-- A built tree is numbered in preorder, the top first. -/
theorem Blueprint.Mirrors.numbered {registry : Registry G} (h : registry.Single)
    {plan : Blueprint} {supply : Supply} {tree : Tree G}
    (hmirrors : plan.Mirrors registry supply tree) :
    tree.NumberedFrom registry supply.next plan.tree.specs := by
  obtain ⟨child, hchild, hnode⟩ := hmirrors.child
  have hbelow : tree.toNode.descendants = child.preorder := by
    simp [Node.descendants, Tree.toNode, Node.children, hchild]
  obtain ⟨hmade, hids, -⟩ := NodePlan.Mirrors.numbers h plan.tree hnode
  have hlength : child.preorder.length = plan.tree.specs.length := hmade.length_eq.symm
  have hfind : tree.find? = child.find? := by
    funext id
    rw [Tree.find?, hchild, Option.bind_some]
  refine ⟨congrArg Head.id hmirrors.top, hbelow ▸ hmade, hbelow ▸ hids, ?_, fun id => ?_⟩
  · rw [Tree.count, Node.count, Node.preorder_eq, List.length_cons]
    exact congrArg (· + 1) ((congrArg List.length hbelow).trans hlength)
  · rw [hfind, hbelow]
    rw [← hlength] at hids
    exact find?_of_range hids id

/-- The identities of a numbered tree are its own number and those that follow. -/
theorem Tree.NumberedFrom.ids_eq {registry : Registry G} {start : Nat} {specs : List NodePlan}
    {tree : Tree G} (h : tree.NumberedFrom registry start specs) :
    tree.toNode.ids = (List.range' start (specs.length + 1)).map NodeId.mk := by
  rw [Node.ids, Node.preorder_eq, List.map_cons, List.range'_succ, List.map_cons]
  exact congrArg₂ List.cons h.top h.ids

/-! ## Loads from one supply -/

/-- A call of the loader: the registry that is used, and the content of the document if it could
be read. -/
structure Load (G : Game) where
  registry : Registry G
  content : Option String

namespace Load

/-- The blueprint that the content of a document describes, if it describes one. -/
def plan? (load : Load G) : Option Blueprint := load.content.bind Blueprint.ofText?

/-- What comes of a load, with the workshop before and after it. -/
structure Record (G : Game) where
  load : Load G
  before : Workshop
  result : Except LoadError (Tree G)
  after : Workshop

namespace Record

/-- The tree that was loaded, if one was. -/
def tree? (record : Record G) : Option (Tree G) := record.result.toOption

/-- The identities that were issued. -/
def issued (record : Record G) : List NodeId :=
  (List.range' record.before.supply.next
    (record.after.supply.next - record.before.supply.next)).map NodeId.mk

/-- What a load issues identities for: nothing if the document describes no tree, the top and
the nodes that were made before the error if the load fails, and the top and all described nodes
if it succeeds. -/
inductive Accounted : Record G → Prop where
  | unread (load : Load G) (before after : Workshop) (error : LoadError)
      (hplan : load.plan? = none) (hsupply : after.supply = before.supply) :
      Accounted ⟨load, before, .error error, after⟩
  | failed (load : Load G) (before after : Workshop) (error : LoadError) (plan : Blueprint)
      (made : List NodePlan) (hplan : load.plan? = some plan) (hinitial : made <+: plan.tree.specs)
      (hnodes : after.nodes = before.nodes ++ made.map fun spec => (spec.kind, spec.arguments))
      (hsupply : after.supply.next = before.supply.next + (made.length + 1)) :
      Accounted ⟨load, before, .error error, after⟩
  | loaded (load : Load G) (before after : Workshop) (tree : Tree G) (plan : Blueprint)
      (hplan : load.plan? = some plan)
      (htree : tree.NumberedFrom load.registry before.supply.next plan.tree.specs)
      (hsupply : after.supply.next = before.supply.next + (plan.tree.specs.length + 1)) :
      Accounted ⟨load, before, .ok tree, after⟩

end Record

/-- Carries a load out. -/
def run (load : Load G) (shop : Workshop) : Record G :=
  let outcome := (Blueprint.loadFile load.registry load.content).outcome shop
  ⟨load, shop, outcome.1, outcome.2⟩

/-- Carries loads out, one after the other. -/
def runAll : List (Load G) → Workshop → List (Record G)
  | [], _ => []
  | load :: rest, shop => load.run shop :: runAll rest (load.run shop).after

/-- Every load accounts for the identities that it draws. -/
theorem run_accounted (load : Load G) (h : load.registry.Single) (shop : Workshop) :
    (load.run shop).Accounted := by
  obtain ⟨registry, content⟩ := load
  cases content with
  | none => exact .unread _ shop shop .unreadable rfl rfl
  | some text =>
      cases hplan : Blueprint.ofText? text with
      | none =>
          have hrun : (Blueprint.loadFile registry (some text)).outcome shop =
              (.error .malformedDocument, shop) := by
            rw [Blueprint.loadFile, Blueprint.load, hplan]
            rfl
          rw [run, hrun]
          exact .unread _ shop shop .malformedDocument hplan rfl
      | some plan =>
          have hrun : (Blueprint.loadFile registry (some text)).outcome shop =
              (plan.finish registry shop.supply.issue.1).outcome (Blueprint.topped shop) := by
            rw [Blueprint.loadFile, Blueprint.load, hplan]
            rfl
          rw [run, hrun]
          have hmeets := plan.finish_meets registry shop
          generalize plan.faults registry shop.supply = faults at hmeets
          -- Besides the nodes that were made, the top has taken an identity in either case.
          cases hmeets with
          | done tree after hdone hmade hmirrors =>
              rw [hdone]
              refine .loaded _ shop after tree plan hplan (hmirrors.numbered h) ?_
              rw [hmade.supply, NodePlan.next_draw_all h hmade.known]
              simp only [Blueprint.topped, Supply.issue_snd_next]
              omega
          | stopped fault later made after hstopped hinitial hmade =>
              rw [hstopped]
              refine .failed _ shop after fault plan made hplan hinitial hmade.nodes ?_
              rw [hmade.supply, NodePlan.next_draw_all h hmade.known]
              simp only [Blueprint.topped, Supply.issue_snd_next]
              omega

namespace Record

/-- A supply only grows. -/
theorem Accounted.le {record : Record G} (h : record.Accounted) :
    record.before.supply.next ≤ record.after.supply.next := by
  cases h with
  | unread _ _ _ _ _ hsupply => exact Nat.le_of_eq (congrArg Supply.next hsupply.symm)
  | failed _ _ _ _ _ _ _ _ _ hsupply | loaded _ _ _ _ _ _ _ hsupply =>
      exact hsupply ▸ Nat.le_add_right _ _

/-- A loaded tree has the identities that were issued for it. -/
theorem Accounted.ids_eq {record : Record G} (h : record.Accounted) {tree : Tree G}
    (htree : record.tree? = some tree) : tree.toNode.ids = record.issued := by
  cases h with
  | unread | failed => simp [tree?, Except.toOption] at htree
  | loaded load before after other plan _ hnumbered hsupply =>
      obtain rfl : other = tree := Option.some.inj htree
      rw [hnumbered.ids_eq, issued, hsupply, Nat.add_sub_cancel_left]

end Record

/-- However a load comes out, the identities it has issued are accounted for. -/
theorem run_all_accounted (loads : List (Load G)) (h : ∀ load ∈ loads, load.registry.Single)
    (shop : Workshop) : ∀ record ∈ runAll loads shop, record.Accounted := by
  induction loads generalizing shop with
  | nil => exact fun _ hrecord => nomatch hrecord
  | cons load rest ih =>
      obtain ⟨hload, hrest⟩ := List.forall_mem_cons.1 h
      exact List.forall_mem_cons.2 ⟨load.run_accounted hload shop, ih hrest _⟩

/-- The identities that loads issue, one load after the other, follow each other without a gap. -/
theorem issued_run_all (loads : List (Load G)) (h : ∀ load ∈ loads, load.registry.Single)
    (shop : Workshop) : ∃ count, (runAll loads shop).flatMap Record.issued =
      (List.range' shop.supply.next count).map NodeId.mk := by
  induction loads generalizing shop with
  | nil => exact ⟨0, rfl⟩
  | cons load rest ih =>
      obtain ⟨hload, hrest⟩ := List.forall_mem_cons.1 h
      have hle : shop.supply.next ≤ (load.run shop).after.supply.next :=
        (load.run_accounted hload shop).le
      obtain ⟨count, hcount⟩ := ih hrest (load.run shop).after
      refine ⟨(load.run shop).after.supply.next - shop.supply.next + count, ?_⟩
      rw [runAll, List.flatMap_cons, hcount, Record.issued, ← List.map_append,
        ← List.range'_append_1, Nat.add_sub_cancel' hle]
      rfl

/-- The identities of the trees that loads make are among those that the loads issue. -/
theorem ids_sublist (loads : List (Load G)) (h : ∀ load ∈ loads, load.registry.Single)
    (shop : Workshop) :
    ((forestNodes ((runAll loads shop).filterMap Record.tree?)).map Node.id).Sublist
      ((runAll loads shop).flatMap Record.issued) := by
  induction loads generalizing shop with
  | nil => exact .slnil
  | cons load rest ih =>
      obtain ⟨hload, hrest⟩ := List.forall_mem_cons.1 h
      have hlater := ih hrest (load.run shop).after
      rw [runAll, List.flatMap_cons]
      cases htree : (load.run shop).tree? with
      | none =>
          rw [List.filterMap_cons_none htree]
          exact hlater.trans (List.sublist_append_right _ _)
      | some tree =>
          have hids : tree.toNode.ids = (load.run shop).issued :=
            (load.run_accounted hload shop).ids_eq htree
          rw [List.filterMap_cons_some htree, forestNodes, List.flatMap_cons, List.map_append,
            ← hids]
          exact (List.Sublist.refl _).append hlater

/-- Of loads that draw from one supply each accounts for the identities that it draws, whether
it succeeds or not. No identity is issued twice, so all nodes of all loaded trees are told apart
by their identities. -/
theorem run_all_numbering {loads : List (Load G)} (h : ∀ load ∈ loads, load.registry.Single)
    (shop : Workshop) :
    let records := runAll loads shop
    (∀ record ∈ records, record.Accounted) ∧ (records.flatMap Record.issued).Nodup ∧
      Distinct (records.filterMap Record.tree?) := by
  intro records
  obtain ⟨count, hissued⟩ := issued_run_all loads h shop
  have hnodup : (records.flatMap Record.issued).Nodup := by
    show ((runAll loads shop).flatMap Record.issued).Nodup
    rw [hissued]
    exact List.Nodup.map (fun _ _ heq => congrArg NodeId.raw heq) (List.nodup_range' 1)
  exact ⟨run_all_accounted loads h shop, hnodup, (ids_sublist loads h shop).nodup hnodup⟩

/-- A document that names three nodes, the last of a type that is left open. -/
def walkDocument (last : String) : String :=
  "name: walk\ntree:\n  type: Sequence\n  children:\n  - type: Idle\n  - type: " ++ last

/-- One document cannot be read and one fails at its third node, after a top and two nodes were
numbered. -/
theorem run_all_numbering_demo :
    let loads : List (Load Demo.game) :=
      [none, some (walkDocument "Log"), some (walkDocument "Run"), some (walkDocument "Idle")].map
        (Load.mk Demo.registry)
    let records := runAll loads { supply := ⟨4⟩ }
    records.map (fun record => record.tree?.map fun tree => tree.toNode.ids.map NodeId.raw) =
        [none, some [4, 5, 6, 7], none, some [11, 12, 13, 14]] ∧
      Distinct (records.filterMap Record.tree?) := by
  intro loads records
  refine ⟨by decide +kernel, ?_⟩
  exact (run_all_numbering (by simp [loads, Demo.registry_single]) _).2.2

end Load

end BehaviorTree
