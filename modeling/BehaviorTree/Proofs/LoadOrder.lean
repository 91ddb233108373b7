import BehaviorTree.Proofs.Reloading
import BehaviorTree.Simulation.Run

/-!
# Trees loaded one after another

With factories that do not look at the supply it does not matter to a load what was loaded before,
up to the identities of the nodes: the same file has the same faults, and the trees are copies
(`Blueprint.load_file_eq`).

So `Simulation.loadAll`, which stops at the first failure, is told by what each file holds on its
own and by the names of the trees. As long as the files hold trees of different names, loading goes
on, and the trees come into the cache in order (`Simulation.load_all_append`). It stops at the first
file that has a fault of its own or holds a tree whose name is taken (`Simulation.load_all_fault`).
-/

namespace BehaviorTree

variable {G : Game} {registry : Registry G} {distance : Nat}

/-! ## Faults at a distance -/

/-- Other identities do not change whether a node takes a child. -/
theorem Node.refusal?_renamed (f : NodeId → NodeId) (given : Nat) (node : Node G) :
    (node.renamed f).refusal? given = node.refusal? given := by
  cases node with
  | decorator head kind child => cases child <;> simp [refusal?]
  | composite | timed | action => rfl

namespace NodePlan

/-- What an oblivious registry makes at a distance, if it makes anything. -/
theorem create_node?_shift (h : registry.Oblivious) (kind : String) (args : Arguments)
    (supply : Supply) :
    (registry.createNode? kind args (supply.shift distance)).map Prod.fst =
      ((registry.createNode? kind args supply).map Prod.fst).map
        (Node.renamed (NodeId.shift distance)) := by
  unfold Registry.createNode?
  cases hfactory : registry.nodes.get? kind with
  | none => rfl
  | some factory => exact congrArg some (h kind factory hfactory args supply distance)

/-- With factories that draw one identity each, a draw from a shifted supply is the shifted draw. -/
theorem draw_shift (hsingle : registry.Single) (plan : NodePlan) (supply : Supply) :
    draw registry (supply.shift distance) plan = (draw registry supply plan).shift distance := by
  cases hmade : registry.createNode? plan.kind plan.arguments supply with
  | none =>
      have hmade' :
          registry.createNode? plan.kind plan.arguments (supply.shift distance) = none := by
        simpa [Registry.createNode?] using hmade
      simp [draw, hmade, hmade']
  | some drawn =>
      have hsome : (registry.createNode? plan.kind plan.arguments supply).isSome := by simp [hmade]
      have hsome' : (registry.createNode? plan.kind plan.arguments
          (supply.shift distance)).isSome := by
        simpa [Registry.createNode?] using hsome
      rw [draw_single hsingle hsome, draw_single hsingle hsome', Supply.issue_shift]

/-- The same holds of draws one after the other. -/
theorem draw_all_shift (hsingle : registry.Single) (plans : List NodePlan) (supply : Supply) :
    drawAll registry (supply.shift distance) plans =
      (drawAll registry supply plans).shift distance := by
  induction plans generalizing supply with
  | nil => rfl
  | cons plan rest ih =>
      rw [drawAll, List.foldl_cons, draw_shift hsingle]
      exact ih _

mutual

/-- A description of a node has the same faults at a distance. -/
theorem faults_shift (hsingle : registry.Single) (h : registry.Oblivious) :
    ∀ (plan : NodePlan) (supply : Supply),
      plan.faults registry (supply.shift distance) = plan.faults registry supply
  | mk kind args condition children, supply => by
      rw [faults, faults, create_node?_shift h, draw_shift hsingle, Option.isSome_map,
        child_faults_shift hsingle h]

/-- The children of a description have the same faults at every distance. -/
theorem child_faults_shift (hsingle : registry.Single) (h : registry.Oblivious) :
    ∀ (made : Option (Node G)) (given : Nat) (supply : Supply) (plans : List NodePlan),
      childFaults registry (made.map (Node.renamed (NodeId.shift distance))) given
          (supply.shift distance) plans =
        childFaults registry made given supply plans
  | _, _, _, [] => rfl
  | made, given, supply, plan :: rest => by
      have hrefusal : (made.map (Node.renamed (NodeId.shift distance))).bind
          (Node.refusal? given) = made.bind (Node.refusal? given) := by
        cases made with
        | none => rfl
        | some node => exact Node.refusal?_renamed _ given node
      rw [childFaults, childFaults, faults_shift hsingle h plan, hrefusal, draw_all_shift hsingle,
        child_faults_shift hsingle h made (given + 1) _ rest]

end

end NodePlan

namespace Blueprint

/-- A build from a shifted supply makes the tree with shifted identities, or fails in the same way.
-/
theorem build_shift (hsingle : registry.Single) (h : registry.Oblivious) (plan : Blueprint)
    {shop shop' : Workshop} (hsupply : shop'.supply = shop.supply.shift distance) :
    ((plan.build registry).outcome shop').1 =
      ((plan.build registry).outcome shop).1.map (Tree.renamed (NodeId.shift distance)) := by
  have hfaults : plan.faults registry shop'.supply = plan.faults registry shop.supply := by
    rw [faults, faults, hsupply, Supply.issue_shift]
    exact plan.tree.faults_shift hsingle h shop.supply.issue.2
  obtain ⟨tree, hresult, hnone, -⟩ | ⟨fault, later, hresult, hfirst⟩ :=
    build_cases registry plan shop
  · obtain ⟨tree', hresult', -⟩ | ⟨fault', later', -, hfirst'⟩ := build_cases registry plan shop'
    · rw [hresult', hresult, build_again hsingle h hresult hresult' hsupply]
      rfl
    · rw [hfaults, hnone] at hfirst'
      exact nomatch hfirst'
  · obtain ⟨tree', -, hnone', -⟩ | ⟨fault', later', hresult', hfirst'⟩ :=
      build_cases registry plan shop'
    · rw [hfaults, hfirst] at hnone'
      exact nomatch hnone'
    · rw [hfaults, hfirst] at hfirst'
      rw [hresult', hresult, (List.cons.inj hfirst').1]
      rfl

/-- What is made of a file if it is the first to be loaded. -/
def loadFirst (registry : Registry G) (content : Option String) : Except LoadError (Tree G) :=
  ((loadFile registry content).outcome { supply := Supply.start }).1

/-- What is made of a file is what would be made of it at first, at a distance. -/
theorem load_file_eq (hsingle : registry.Single) (h : registry.Oblivious)
    (content : Option String) (shop : Workshop) :
    ((loadFile registry content).outcome shop).1 =
      (loadFirst registry content).map (Tree.renamed (NodeId.shift shop.supply.next)) := by
  have hsupply : shop.supply = Supply.start.shift shop.supply.next := by
    simp [Supply.shift, Supply.start]
  unfold loadFirst
  cases content with
  | none => rfl
  | some text =>
      rw [loadFile, load]
      cases ofText? text with
      | none => rfl
      | some plan => exact plan.build_shift hsingle h hsupply

end Blueprint

/-! ## One file into the cache -/

namespace Cache

/-- A cache contains a name just in case one of its trees has it. -/
theorem contains_iff {cache : Cache G} {name : String} :
    cache.contains name = true ↔ name ∈ cache.trees.map Tree.name := by
  simp [contains, get?]

/-- A tree that is found under a name has that name. -/
theorem get?_eq_some {cache : Cache G} {name : String} {tree : Tree G}
    (h : cache.get? name = some tree) : tree ∈ cache.trees ∧ tree.name = name :=
  ⟨List.mem_of_find?_eq_some h, by simpa using List.find?_some h⟩

/-- A file that holds no tree is told apart by its own fault. -/
theorem load_file_error {cache : Cache G} {content : Option String} {shop : Workshop}
    {error : LoadError}
    (h : ((Blueprint.loadFile registry content).outcome shop).1 = .error error) :
    ((cache.loadFile registry content).outcome shop).1 = .error error := by
  rw [loadFile, Build.outcome_bind]
  generalize (Blueprint.loadFile registry content).outcome shop = outcome at h
  obtain ⟨result, after⟩ := outcome
  subst h
  rfl

/-- A tree is refused if its name is taken. -/
theorem load_file_taken {cache : Cache G} {content : Option String} {shop : Workshop}
    {tree : Tree G}
    (h : ((Blueprint.loadFile registry content).outcome shop).1 = .ok tree)
    (htaken : cache.contains tree.name = true) :
    ((cache.loadFile registry content).outcome shop).1 = .error (.duplicateTree tree.name) := by
  rw [loadFile, Build.outcome_bind]
  generalize (Blueprint.loadFile registry content).outcome shop = outcome at h
  obtain ⟨result, after⟩ := outcome
  subst h
  simp only [add, htaken, ↓reduceIte]
  rfl

/-- A tree whose name is free comes last into the cache. -/
theorem load_file_free {cache : Cache G} {content : Option String} {shop : Workshop} {tree : Tree G}
    (h : ((Blueprint.loadFile registry content).outcome shop).1 = .ok tree)
    (hfree : cache.contains tree.name = false) :
    ((cache.loadFile registry content).outcome shop).1 = .ok (tree, ⟨cache.trees ++ [tree]⟩) := by
  rw [loadFile, Build.outcome_bind]
  generalize (Blueprint.loadFile registry content).outcome shop = outcome at h
  obtain ⟨result, after⟩ := outcome
  subst h
  simp only [add, hfree, Bool.false_eq_true, ↓reduceIte]
  rfl

end Cache

namespace Simulation

/-- What a file holds, if it is the first to be loaded. -/
def holding (files : String → Option String) (path : String) :
    Except LoadError (Tree Demo.game) :=
  Blueprint.loadFirst Demo.registry (files path)

/-- A tree is a copy of the one that a file holds. -/
def Holds (files : String → Option String) (path : String) (tree : Tree Demo.game) : Prop :=
  ∃ made distance, holding files path = .ok made ∧ tree = made.renamed (NodeId.shift distance)

/-- Files hold trees of the given names, no name twice. -/
structure Named (files : String → Option String) (paths names : List String) : Prop where
  holds : List.Forall₂ (fun path name => ∃ tree, holding files path = .ok tree ∧ tree.name = name)
    paths names
  nodup : names.Nodup

/-- Why a file cannot be loaded once trees of some names are. -/
inductive Fault (files : String → Option String) (names : List String) (path : String) :
    LoadError → Prop where
  | broken {error : LoadError} (h : holding files path = .error error) :
      Fault files names path error
  | repeated {tree : Tree Demo.game} (h : holding files path = .ok tree)
      (hname : tree.name ∈ names) : Fault files names path (.duplicateTree tree.name)

namespace Loading

variable {files : String → Option String} {loading : Loading} {path : String}

/-- A file is loaded into the cache, and a failure names its path. -/
theorem add_eq (loading : Loading) (path : String) (content : Option String) :
    loading.add path content =
      match (loading.cache.loadFile Demo.registry content).outcome loading.workshop with
      | (.ok (_, cache), workshop) => .ok { workshop, cache }
      | (.error error, _) => .error (.tree path error) := rfl

/-- A file without a tree of its own, or with one whose name is taken, is a failure. -/
theorem add_fault {error : LoadError}
    (h : Fault files (loading.cache.trees.map Tree.name) path error) :
    loading.add path (files path) = .error (.tree path error) := by
  have hresult := Blueprint.load_file_eq Demo.registry_single Demo.registry_oblivious (files path)
    loading.workshop
  have hloaded : ((loading.cache.loadFile Demo.registry (files path)).outcome
      loading.workshop).1 = .error error := by
    cases h with
    | broken h =>
        rw [← holding, h] at hresult
        exact Cache.load_file_error hresult
    | @repeated tree h hname =>
        rw [← holding, h, Except.map] at hresult
        have htaken := Cache.load_file_taken hresult (Cache.contains_iff.2 hname)
        exact htaken
  rw [add_eq]
  generalize (loading.cache.loadFile Demo.registry (files path)).outcome loading.workshop = outcome
    at hloaded
  obtain ⟨result, after⟩ := outcome
  subst hloaded
  rfl

/-- The tree of a file comes into the cache if its name is free. -/
theorem add_holding {made : Tree Demo.game} (h : holding files path = .ok made)
    (hfree : made.name ∉ loading.cache.trees.map Tree.name) :
    ∃ workshop tree, Holds files path tree ∧ tree.name = made.name ∧
      loading.add path (files path) = .ok ⟨workshop, ⟨loading.cache.trees ++ [tree]⟩⟩ := by
  have hresult := Blueprint.load_file_eq Demo.registry_single Demo.registry_oblivious (files path)
    loading.workshop
  rw [← holding, h, Except.map] at hresult
  have hfresh : loading.cache.contains made.name = false :=
    Bool.eq_false_iff.2 fun htaken => hfree (Cache.contains_iff.1 htaken)
  have hloaded := Cache.load_file_free hresult hfresh
  rw [add_eq]
  generalize (loading.cache.loadFile Demo.registry (files path)).outcome loading.workshop = outcome
    at hloaded
  obtain ⟨result, after⟩ := outcome
  subst hloaded
  exact ⟨after, _, ⟨made, _, h, rfl⟩, rfl, rfl⟩

end Loading

variable {files : String → Option String} {paths names : List String}

/-- No files hold no trees. -/
theorem named_nil : Named files [] [] := ⟨.nil, .nil⟩

/-- One more file with a tree whose name is free. -/
theorem Named.concat (h : Named files paths names) {path : String} {tree : Tree Demo.game}
    (hheld : holding files path = .ok tree) (hfree : tree.name ∉ names) :
    Named files (paths ++ [path]) (names ++ [tree.name]) where
  holds := List.rel_append h.holds (.cons ⟨tree, hheld, rfl⟩ .nil)
  nodup := h.nodup.append (List.nodup_singleton _) (by simpa using hfree)

/-- Files hold trees of different names, or there is a first one with a fault. -/
theorem named_or_fault (files : String → Option String) (paths : List String) :
    (∃ names, Named files paths names) ∨
      ∃ earlier path later names error, paths = earlier ++ path :: later ∧
        Named files earlier names ∧ Fault files names path error := by
  induction paths using List.reverseRecOn with
  | nil => exact .inl ⟨[], named_nil⟩
  | append_singleton paths path ih =>
      obtain ⟨names, hnamed⟩ | ⟨earlier, first, later, names, error, rfl, hnamed, hfault⟩ := ih
      · cases hheld : holding files path with
        | error error => exact .inr ⟨paths, path, [], names, error, rfl, hnamed, .broken hheld⟩
        | ok tree =>
            by_cases hname : tree.name ∈ names
            · exact .inr ⟨paths, path, [], names, _, rfl, hnamed, .repeated hheld hname⟩
            · exact .inl ⟨_, hnamed.concat hheld hname⟩
      · exact .inr ⟨earlier, first, later ++ [path], names, error, by simp, hnamed, hfault⟩

/-! ## File after file -/

/-- Files are loaded one after the other, and the first failure ends the loading. -/
theorem load_all_cons (files : String → Option String) (loading : Loading) (path : String)
    (rest : List String) :
    loadAll (m := Id) files loading (path :: rest) =
      match loading.add path (files path) with
      | .error failure => .error failure
      | .ok loading => loadAll (m := Id) files loading rest := by
  show (match loading.add path (files path) with
    | .error failure => pure (.error failure)
    | .ok loading => loadAll files loading rest : Id _) = _
  cases loading.add path (files path) <;> rfl

/-- Files that hold trees of new names are loaded, one after the other. -/
theorem load_all_append
    (h : List.Forall₂ (fun path name => ∃ tree, holding files path = .ok tree ∧ tree.name = name)
      paths names) (loading : Loading)
    (hnodup : (loading.cache.trees.map Tree.name ++ names).Nodup) :
    ∃ workshop trees, List.Forall₂ (Holds files) paths trees ∧ trees.map Tree.name = names ∧
      ∀ rest, loadAll (m := Id) files loading (paths ++ rest) =
        loadAll (m := Id) files ⟨workshop, ⟨loading.cache.trees ++ trees⟩⟩ rest := by
  induction h generalizing loading with
  | nil => exact ⟨loading.workshop, [], .nil, rfl, fun rest => by rw [List.append_nil]; rfl⟩
  | @cons path name paths names hfirst hrest ih =>
      obtain ⟨made, hheld, rfl⟩ := hfirst
      have hfree : made.name ∉ loading.cache.trees.map Tree.name := fun hmem =>
        List.disjoint_of_nodup_append hnodup hmem List.mem_cons_self
      obtain ⟨workshop, tree, hholds, hname, hadd⟩ := Loading.add_holding hheld hfree
      -- From here on the name of this tree is taken, too.
      obtain ⟨workshop', trees, htrees, hnames, hload⟩ :=
        ih ⟨workshop, ⟨loading.cache.trees ++ [tree]⟩⟩ (by simpa [hname] using hnodup)
      refine ⟨workshop', tree :: trees, .cons hholds htrees, by rw [List.map_cons, hname, hnames],
        fun rest => ?_⟩
      rw [List.cons_append, load_all_cons, hadd]
      exact (hload rest).trans (by rw [List.append_assoc]; rfl)

/-- All files of different names make up the cache, in their order. -/
theorem load_all_named (h : Named files paths names) :
    ∃ trees, List.Forall₂ (Holds files) paths trees ∧ trees.map Tree.name = names ∧
      loadAll (m := Id) files {} paths = .ok ⟨trees⟩ := by
  obtain ⟨workshop, trees, htrees, hnames, hload⟩ := load_all_append h.holds {} h.nodup
  refine ⟨trees, htrees, hnames, ?_⟩
  rw [← paths.append_nil]
  exact hload []

/-- Loading stops at the first fault. -/
theorem load_all_fault (h : Named files paths names) {path : String} {error : LoadError}
    (hfault : Fault files names path error) (later : List String) :
    loadAll (m := Id) files {} (paths ++ path :: later) = .error (.tree path error) := by
  obtain ⟨workshop, trees, -, hnames, hload⟩ := load_all_append h.holds {} h.nodup
  rw [hload, load_all_cons, Loading.add_fault]
  simpa [Cache.empty, hnames] using hfault

end Simulation

end BehaviorTree
