import BehaviorTree.Proofs.Numbering
import BehaviorTree.Proofs.Renamed

/-!
# Trees that are loaded again

What a factory makes may depend on the supply. If nothing but the identity of the node does
(`Registry.Oblivious`), as with the built-in and the demonstration factories, then a blueprint that
is built at two values of the supply gives a tree and a copy of it in which all identities are
shifted by the same distance (`Blueprint.build_again`).
-/

namespace BehaviorTree

variable {G : Game} {registry : Registry G} {distance : Nat}

/-- The identity at a distance from another one. -/
def NodeId.shift (distance : Nat) (id : NodeId) : NodeId := ⟨id.raw + distance⟩

/-- The supply at a distance from another one. -/
def Supply.shift (distance : Nat) (supply : Supply) : Supply := ⟨supply.next + distance⟩

/-- The supply at a distance issues identities at that distance. -/
theorem Supply.issue_shift (supply : Supply) :
    (supply.shift distance).issue =
      (supply.issue.1.shift distance, supply.issue.2.shift distance) := by
  simp only [shift, issue, NodeId.shift, Nat.add_right_comm]

/-! ## Factories that do not look at the supply -/

namespace Registry

/-- A factory makes the same node from every supply, up to its identity. -/
def IsOblivious (factory : NodeFactory G) : Prop :=
  ∀ args supply distance,
    (factory args (supply.shift distance)).1 =
      (factory args supply).1.renamed (NodeId.shift distance)

/-- No factory of nodes looks at the supply. -/
def Oblivious (registry : Registry G) : Prop := registry.AllNodes IsOblivious

/-- The factories of the engine do not look at the supply. -/
theorem builtins_oblivious : (builtins : Registry G).Oblivious := by
  refine empty_all_nodes.register_all ?_
  simp only [builtinEntries, List.forall_mem_cons, List.not_mem_nil, false_imp_iff, implies_true,
    Entry.Suits, and_true]
  exact ⟨fun _ _ _ => rfl, fun _ _ _ => rfl, fun _ _ _ => rfl, fun _ _ _ => rfl, fun _ _ _ => rfl,
    fun _ _ _ => rfl, fun _ _ _ => rfl, fun _ _ _ => rfl, fun _ _ _ => rfl, fun _ _ _ => rfl,
    fun _ _ _ => rfl⟩

end Registry

/-- The factories of the demonstration do not look at the supply. -/
theorem Demo.registry_oblivious : Demo.registry.Oblivious := by
  refine Registry.builtins_oblivious.register_all ?_
  simp only [Demo.entries, List.forall_mem_cons, List.not_mem_nil, false_imp_iff, implies_true,
    Registry.Entry.Suits, and_true]
  exact ⟨fun _ _ _ => rfl, fun _ _ _ => rfl⟩

/-! ## Parts and what they are put together from -/

/-- What is there is told from nothing by the list of it. -/
theorem to_list_injective {α : Type} : Function.Injective (Option.toList : Option α → List α) := by
  rintro (_ | one) (_ | other) h <;> simp_all

/-- A condition is known by what it is without its parts, and by its parts. -/
theorem Condition.eq_of_parts {one other : Condition G} (hbare : other.bare = one.bare)
    (hfilter : other.filter? = one.filter?) (hnested : other.nested = one.nested) :
    other = one := by
  cases one <;> cases other <;> simp_all [bare, filter?, nested, to_list_injective.eq_iff]

/-- A condition is extended in one way only by the same filter and the same inside. -/
theorem Condition.Extends.unique {made one other : Condition G} {filter : Option (Filter G)}
    {inside : List (Condition G)} (h : made.Extends filter inside one)
    (h' : made.Extends filter inside other) : other = one :=
  eq_of_parts (h'.bare.trans h.bare.symm) (h'.filter.trans h.filter.symm)
    (h'.nested.trans h.nested.symm)

namespace Node

/-- A node is known by what it is without its parts, and by its parts. -/
theorem eq_of_parts {one other : Node G} (hbare : other.bare = one.bare)
    (hgate : other.gate = one.gate) (hchildren : other.children = one.children) :
    other = one := by
  obtain ⟨⟨id, gate⟩⟩ | ⟨⟨id, gate⟩⟩ | ⟨⟨id, gate⟩⟩ | ⟨⟨id, gate⟩⟩ := one <;>
    obtain ⟨⟨id', gate'⟩⟩ | ⟨⟨id', gate'⟩⟩ | ⟨⟨id', gate'⟩⟩ | ⟨⟨id', gate'⟩⟩ := other <;>
      simp_all [bare, Node.gate, head, children, to_list_injective.eq_iff]

/-- A renamed node without its children and its gate is the renamed one without them. -/
theorem bare_renamed (f : NodeId → NodeId) (node : Node G) :
    (node.renamed f).bare = node.bare.renamed f := by
  cases node <;> simp [bare, Head.renamed, renamed]

/-- What a renamed node is put together to is the renamed whole. -/
theorem Extends.renamed {made node other : Node G} {gate : Option (Condition G)}
    {below : List (Node G)} {f : NodeId → NodeId} (h : made.Extends gate below node)
    (h' : (made.renamed f).Extends gate (below.map (Node.renamed f)) other) :
    other = node.renamed f := by
  refine eq_of_parts ?_ ?_ ?_
  · rw [h'.bare, bare_renamed, bare_renamed, h.bare]
  · rw [h'.gate, gate_renamed, h.gate]
  · rw [h'.children, children_renamed, children_renamed, h.children, List.map_append]

end Node

/-! ## Built again -/

namespace ConditionPlan

/-- The filter of a plan is made in one way only. -/
theorem Sieves.unique {made : Condition G} {plan : Option FilterPlan}
    {one other : Option (Filter G)} (h : Sieves registry made plan one)
    (h' : Sieves registry made plan other) : other = one := by
  cases plan with
  | none => exact Eq.trans h' (Eq.symm h)
  | some plan =>
      obtain ⟨attached, hmade, rfl⟩ := h
      obtain ⟨attached', hmade', rfl⟩ := h'
      exact hmade'.symm.trans hmade

mutual

/-- There is one condition only that a description fits. -/
theorem Mirrors.unique : ∀ (plan : ConditionPlan) {one other : Condition G},
    plan.Mirrors registry one → plan.Mirrors registry other → other = one
  | mk kind args filter conditions, one, other, h, h' => by
      obtain ⟨made, attached, inside, hmade, hextends, hsieves, hinside⟩ := h
      obtain ⟨made', attached', inside', hmade', hextends', hsieves', hinside'⟩ := h'
      obtain rfl : made' = made := Option.some.inj (hmade'.symm.trans hmade)
      obtain rfl := hsieves.unique hsieves'
      obtain rfl := MirrorsAll.unique conditions hinside hinside'
      exact hextends.unique hextends'

/-- The conditions of plans are made in one way only. -/
theorem MirrorsAll.unique : ∀ (plans : List ConditionPlan) {one other : List (Condition G)},
    MirrorsAll registry plans one → MirrorsAll registry plans other → other = one
  | [], _, _, h, h' => Eq.trans h' (Eq.symm h)
  | plan :: rest, one, other, h, h' => by
      obtain ⟨first, later, rfl, hfirst, hlater⟩ := h
      obtain ⟨first', later', rfl, hfirst', hlater'⟩ := h'
      rw [Mirrors.unique plan hfirst hfirst', MirrorsAll.unique rest hlater hlater']

end

end ConditionPlan

namespace NodePlan

/-- A plan makes one gate only, whatever the identity of the node. -/
theorem Gates.unique {made : Node G} {f : NodeId → NodeId} {plan : Option ConditionPlan}
    {one other : Option (Condition G)} (h : Gates registry made plan one)
    (h' : Gates registry (made.renamed f) plan other) : other = one := by
  cases plan with
  | none => exact (Eq.trans h' made.gate_renamed).trans (Eq.symm h)
  | some plan =>
      obtain ⟨attached, hmirrors, rfl⟩ := h
      obtain ⟨attached', hmirrors', rfl⟩ := h'
      rw [ConditionPlan.Mirrors.unique plan hmirrors hmirrors']

/-- What an oblivious factory makes at a distance. -/
theorem made_shift (h : registry.Oblivious) {plan : NodePlan} {supply rest rest' : Supply}
    {made made' : Node G}
    (hmade : registry.createNode? plan.kind plan.arguments supply = some (made, rest))
    (hmade' : registry.createNode? plan.kind plan.arguments (supply.shift distance) =
      some (made', rest')) :
    made' = made.renamed (NodeId.shift distance) := by
  obtain ⟨factory, hfactory, hdrawn⟩ := Option.map_eq_some_iff.1 hmade
  obtain ⟨factory', hfactory', hdrawn'⟩ := Option.map_eq_some_iff.1 hmade'
  obtain rfl : factory' = factory := Option.some.inj (hfactory'.symm.trans hfactory)
  have hshift := h _ factory' hfactory plan.arguments supply distance
  rwa [hdrawn, hdrawn'] at hshift

mutual

/-- Nodes that mirror one description at two values of the supply differ in their identities
only, and these by the distance of the values. -/
theorem Mirrors.shift (hsingle : registry.Single) (h : registry.Oblivious) :
    ∀ (plan : NodePlan) {supply : Supply} {node other : Node G},
      plan.Mirrors registry supply node → plan.Mirrors registry (supply.shift distance) other →
        other = node.renamed (NodeId.shift distance)
  | mk kind args condition children, supply, node, other, hnode, hother => by
      obtain ⟨made, rest, gate, below, hmade, hextends, hgates, hbelow⟩ := hnode
      obtain ⟨made', rest', gate', below', hmade', hextends', hgates', hbelow'⟩ := hother
      let plan := mk kind args condition children
      have hcreate : registry.createNode? plan.kind plan.arguments supply = some (made, rest) :=
        hmade
      have hcreate' : registry.createNode? plan.kind plan.arguments (supply.shift distance) =
          some (made', rest') := hmade'
      have hdraw : draw registry (supply.shift distance) plan =
          (draw registry supply plan).shift distance := by
        rw [draw_single hsingle (Option.isSome_of_eq_some hcreate),
          draw_single hsingle (Option.isSome_of_eq_some hcreate'), Supply.issue_shift]
      obtain rfl : made' = made.renamed (NodeId.shift distance) := made_shift h hcreate hcreate'
      obtain rfl := hgates.unique hgates'
      obtain rfl := MirrorsAll.shift hsingle h children hbelow (hdraw ▸ hbelow')
      exact hextends.renamed hextends'

/-- Siblings that are built at a distance are copies with all identities at that distance. -/
theorem MirrorsAll.shift (hsingle : registry.Single) (h : registry.Oblivious) :
    ∀ (plans : List NodePlan) {supply : Supply} {below other : List (Node G)},
      MirrorsAll registry supply plans below →
        MirrorsAll registry (supply.shift distance) plans other →
          other = below.map (Node.renamed (NodeId.shift distance))
  | [], supply, below, other, hbelow, hother => by
      obtain rfl : below = [] := hbelow
      exact hother
  | plan :: rest, supply, below, other, hbelow, hother => by
      obtain ⟨first, later, rfl, hfirst, hlater⟩ := hbelow
      obtain ⟨first', later', rfl, hfirst', hlater'⟩ := hother
      have hdraw : drawAll registry (supply.shift distance) plan.specs =
          (drawAll registry supply plan.specs).shift distance := by
        have hrest := (Mirrors.numbers hsingle plan hfirst).rest
        have hrest' := (Mirrors.numbers hsingle plan hfirst').rest
        refine congrArg Supply.mk (hrest'.trans ?_)
        rw [hrest, Supply.shift, Nat.add_right_comm]
      rw [hdraw] at hlater'
      rw [Mirrors.shift hsingle h plan hfirst hfirst', List.map_cons,
        MirrorsAll.shift hsingle h rest hlater hlater']

end

end NodePlan

/-- A blueprint that is built at two values of the supply gives a tree and a renamed copy of it. -/
theorem Blueprint.build_again (hsingle : registry.Single) (h : registry.Oblivious)
    {plan : Blueprint} {shop shop' : Workshop} {tree tree' : Tree G}
    (hbuild : ((plan.build registry).outcome shop).1 = .ok tree)
    (hbuild' : ((plan.build registry).outcome shop').1 = .ok tree')
    (hsupply : shop'.supply = shop.supply.shift distance) :
    tree' = tree.renamed (NodeId.shift distance) := by
  obtain ⟨hname, htop, node, hchild, hnode⟩ := mirrors_of_build hbuild
  obtain ⟨hname', htop', node', hchild', hnode'⟩ := mirrors_of_build hbuild'
  rw [hsupply, Supply.issue_shift] at hnode' htop'
  obtain ⟨head, name, child⟩ := tree
  obtain ⟨head', name', child'⟩ := tree'
  dsimp only at *
  subst hname hname' htop htop' hchild hchild'
  rw [NodePlan.Mirrors.shift hsingle h plan.tree hnode hnode']
  rfl

end BehaviorTree
