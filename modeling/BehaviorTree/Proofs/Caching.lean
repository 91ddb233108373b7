import BehaviorTree.Proofs.ByteOrder
import BehaviorTree.Proofs.LoadOrder
import Mathlib.Data.List.DropRight

/-!
# The cache after any calls

Trees come into the cache by `add` and `loadFile` and leave it by `remove` and `removeByName`. What
is cached under a name follows from the turns that were taken: it is the first tree that came for
the name since the name was last freed (`Cache.standing`, `Cache.get?_after`).

`Cache.first_tree_stands` says this of every sequence of calls, with what the next call does: when
a tree is taken, which tree can be removed, and that a load that fails for any reason leaves all
names and trees as they were.
-/

namespace BehaviorTree.Cache

variable {G : Game}

/-! ## Calls and turns -/

/-- A call of the cache. A file is loaded with a registry, in a workshop; it has no content if it
cannot be read. -/
inductive Call (G : Game) where
  | add (tree : Tree G)
  | remove (tree : Tree G)
  | removeByName (name : String)
  | loadFile (registry : Registry G) (content : Option String) (shop : Workshop)

/-- What a call answers. -/
inductive Answer (G : Game) where
  | added (taken : Bool)
  | removed (tree : Option (Tree G))
  | loaded (result : Except LoadError (Tree G))

/-- The answer to a call, and the cache afterwards. A tree that was made is stored before it is
known whether its name is free, so a load may fail behind the change of the cache. -/
def perform (cache : Cache G) : Call G → Answer G × Cache G
  | .add tree => (.added (cache.add tree).value.1, (cache.add tree).value.2)
  | .remove tree => (.removed (cache.remove tree).value.1, (cache.remove tree).value.2)
  | .removeByName name =>
      (.removed (cache.removeByName name).value.1, (cache.removeByName name).value.2)
  | .loadFile registry content shop =>
      (.loaded (((cache.loadFile registry content).outcome shop).1.map Prod.fst),
        match ((Blueprint.loadFile registry content).outcome shop).1 with
        | .error _ => cache
        | .ok tree => (cache.add tree).value.2)

/-- A call and what came of it. -/
structure Turn (G : Game) where
  call : Call G
  answer : Answer G

/-- The tree that comes for a name in a turn, whether or not the name is free. -/
def Turn.brings? (name : String) : Turn G → Option (Tree G)
  | ⟨.add tree, _⟩ => if tree.name = name then some tree else none
  | ⟨.loadFile _ _ _, .loaded (.ok tree)⟩ => if tree.name = name then some tree else none
  | _ => none

/-- Whether an answer is the tree of a name, which is not cached any more. -/
def Answer.frees (name : String) : Answer G → Bool
  | .removed (some tree) => tree.name = name
  | _ => false

/-- The turn of a call. -/
def turn (cache : Cache G) (call : Call G) : Turn G := ⟨call, (cache.perform call).1⟩

/-- The turns of calls one after another. -/
def turns (cache : Cache G) : List (Call G) → List (Turn G)
  | [] => []
  | call :: rest => cache.turn call :: turns (cache.perform call).2 rest

/-- The cache after calls. -/
def after (cache : Cache G) (calls : List (Call G)) : Cache G :=
  calls.foldl (fun cache call => (cache.perform call).2) cache

variable {cache : Cache G}

/-- The last call is made of the cache that the others leave. -/
@[simp] theorem after_concat (calls : List (Call G)) (call : Call G) :
    cache.after (calls ++ [call]) = ((cache.after calls).perform call).2 := by
  simp [after]

/-- The last turn is taken at the cache that the others leave. -/
@[simp] theorem turns_concat (calls : List (Call G)) (call : Call G) :
    cache.turns (calls ++ [call]) = cache.turns calls ++ [(cache.after calls).turn call] := by
  induction calls generalizing cache with
  | nil => rfl
  | cons first rest ih => simpa [turns, after] using ih

/-! ## The tree that stands under a name -/

/-- The first tree that came for a name since the name was last freed. -/
def standing (name : String) (turns : List (Turn G)) : Option (Tree G) :=
  (turns.rtakeWhile fun turn => !turn.answer.frees name).findSome? (Turn.brings? name)

/-- A turn that frees a name ends what stood there; any other turn brings a tree only where none
stands. -/
theorem standing_concat (name : String) (turns : List (Turn G)) (turn : Turn G) :
    standing name (turns ++ [turn]) =
      if turn.answer.frees name then none else (standing name turns).or (turn.brings? name) := by
  unfold standing
  split
  · rename_i hfrees
    rw [List.rtakeWhile_concat_neg _ _ _ (by simp [hfrees])]
    rfl
  · rename_i hkeeps
    rw [List.rtakeWhile_concat_pos _ _ _ (by simpa using hkeeps), List.findSome?_append]
    simp

/-! ## One call -/

/-- A tree that is added is found under its name, unless another one is there. -/
theorem get?_add (tree : Tree G) (name : String) :
    (cache.add tree).value.2.get? name =
      (cache.get? name).or (if tree.name = name then some tree else none) := by
  unfold add
  split
  · rename_i htaken
    split
    · rename_i hname
      subst hname
      obtain ⟨cached, hcached⟩ := Option.isSome_iff_exists.1 htaken
      simp [hcached]
    · simp
  · simp [get?, List.find?_append, List.find?_singleton]

/-- Only the tree that comes out is not cached any more. -/
theorem get?_remove_by_name (removed name : String) :
    (cache.removeByName removed).value.2.get? name =
      if (Answer.removed (cache.removeByName removed).value.1).frees name then none
      else cache.get? name := by
  unfold removeByName
  cases hcached : cache.get? removed with
  | none => rfl
  | some tree =>
      rw [Answer.frees, (get?_eq_some hcached).2]
      by_cases hname : removed = name
      · simp [hname, get?]
      · simp only [hname, decide_false, Bool.false_eq_true, ↓reduceIte, get?, List.find?_filter]
        refine congrArg cache.trees.find? (funext fun other => ?_)
        by_cases h : other.name = name
        · simp [h, Ne.symm hname]
        · simp [h]

/-- What comes out of the cache is what was cached. -/
theorem remove_by_name_fst (name : String) :
    (cache.removeByName name).value.1 = cache.get? name := by
  unfold removeByName
  cases cache.get? name <;> rfl

/-- A tree is removed if it is the one that is cached under its name, and else nothing is. -/
theorem remove_cases (tree : Tree G) :
    (∃ cached, cache.get? tree.name = some cached ∧ cached.id = tree.id ∧
        (cache.remove tree).value = (cache.removeByName tree.name).value) ∨
      (∀ cached, cache.get? tree.name = some cached → cached.id ≠ tree.id) ∧
        (cache.remove tree).value = (none, cache) := by
  unfold remove
  cases cache.get? tree.name with
  | none => exact .inr ⟨fun _ h => (nomatch h), rfl⟩
  | some cached =>
      by_cases hid : cached.id = tree.id
      · exact .inl ⟨cached, rfl, hid, by simp [hid]⟩
      · refine .inr ⟨fun other hother => ?_, by simp [hid]⟩
        cases hother
        exact hid

/-- A tree whose name is taken leaves the cache as it was. -/
theorem add_of_contains {tree : Tree G} (h : cache.contains tree.name = true) :
    (cache.add tree).value = (false, cache) := by
  rw [add, if_pos h]

/-- A tree is taken if its name is free. -/
theorem add_iff {tree : Tree G} :
    (cache.add tree).value.1 = true ↔ cache.get? tree.name = none := by
  rw [← Option.isNone_iff_eq_none, ← Option.isSome_eq_false_iff]
  unfold add contains
  split <;> simp_all

/-- A cache that does not take a tree stays as it was. -/
theorem add_refused {tree : Tree G} (h : (cache.add tree).value.1 = false) :
    (cache.add tree).value.2 = cache := by
  by_cases htaken : cache.contains tree.name = true
  · rw [add_of_contains htaken]
  · simp [add, htaken] at h

/-- If no tree comes out, nothing changes. -/
theorem remove_spared {tree : Tree G} (h : (cache.remove tree).value.1 = none) :
    (cache.remove tree).value.2 = cache := by
  obtain ⟨cached, hcached, -, heq⟩ | ⟨-, heq⟩ := cache.remove_cases tree
  · rw [heq, remove_by_name_fst, hcached] at h
    exact nomatch h
  · exact congrArg Prod.snd heq

/-- A load stores the tree that was made under a name that was free. Or it fails, and then the
cache is as it was. -/
theorem load_file_cases (registry : Registry G) (content : Option String) (shop : Workshop) :
    (∃ tree, cache.get? tree.name = none ∧
        ((Blueprint.loadFile registry content).outcome shop).1 = .ok tree ∧
        ((cache.loadFile registry content).outcome shop).1 = .ok (tree, (cache.add tree).value.2) ∧
        cache.perform (.loadFile registry content shop) =
          (.loaded (.ok tree), (cache.add tree).value.2)) ∨
      ∃ error, ((cache.loadFile registry content).outcome shop).1 = .error error ∧
        cache.perform (.loadFile registry content shop) = (.loaded (.error error), cache) := by
  cases hmade : ((Blueprint.loadFile registry content).outcome shop).1 with
  | error error =>
      have hfails : ((cache.loadFile registry content).outcome shop).1 = .error error :=
        load_file_error hmade
      exact .inr ⟨error, hfails, by simp only [perform, hfails, hmade, Except.map]⟩
  | ok tree =>
      by_cases htaken : cache.contains tree.name = true
      · have hfails := load_file_taken hmade htaken
        refine .inr ⟨_, hfails, ?_⟩
        simp only [perform, hfails, hmade, add_of_contains htaken, Except.map]
      · have hloads := load_file_free hmade (by simpa using htaken)
        have hadd : (cache.add tree).value.2 = ⟨cache.trees ++ [tree]⟩ := by rw [add, if_neg htaken]
        refine .inl ⟨tree, by simpa [contains] using htaken, rfl, hadd ▸ hloads, ?_⟩
        simp only [perform, hloads, hmade, Except.map]

/-- A load that succeeds has found the name of its tree free, and the tree is cached from then on.
-/
theorem perform_loaded {registry : Registry G} {content : Option String} {shop : Workshop}
    {tree : Tree G} {next : Cache G}
    (h : ((cache.loadFile registry content).outcome shop).1 = .ok (tree, next)) :
    cache.get? tree.name = none ∧ next.get? tree.name = some tree ∧
      (cache.perform (.loadFile registry content shop)).2 = next := by
  obtain ⟨made, hfree, -, hmade, heq⟩ | ⟨error, herror, -⟩ :=
    cache.load_file_cases registry content shop
  · rw [h] at hmade
    cases hmade
    exact ⟨hfree, by simp [get?_add, hfree], congrArg Prod.snd heq⟩
  · exact nomatch h.symm.trans herror

/-- A load that fails leaves the cache as it was. -/
theorem perform_failed {registry : Registry G} {content : Option String} {shop : Workshop}
    {error : LoadError} (h : ((cache.loadFile registry content).outcome shop).1 = .error error) :
    (cache.perform (.loadFile registry content shop)).2 = cache := by
  obtain ⟨made, -, -, hmade, -⟩ | ⟨other, -, heq⟩ := cache.load_file_cases registry content shop
  · exact nomatch h.symm.trans hmade
  · exact congrArg Prod.snd heq

/-- A call changes what is cached under a name as its turn tells. -/
theorem get?_perform (call : Call G) (name : String) :
    (cache.perform call).2.get? name =
      if (cache.perform call).1.frees name then none
      else (cache.get? name).or ((cache.turn call).brings? name) := by
  cases call with
  | add tree => simp [perform, turn, Answer.frees, Turn.brings?, get?_add]
  | removeByName removed => simp [perform, turn, Turn.brings?, get?_remove_by_name]
  | remove tree =>
      obtain ⟨cached, -, -, heq⟩ | ⟨-, heq⟩ := cache.remove_cases tree
      · simp [perform, turn, heq, Turn.brings?, get?_remove_by_name]
      · simp [perform, turn, heq, Answer.frees, Turn.brings?]
  | loadFile registry content shop =>
      obtain ⟨tree, -, -, -, heq⟩ | ⟨error, -, heq⟩ :=
        cache.load_file_cases registry content shop
      · simp [turn, heq, Answer.frees, Turn.brings?, get?_add]
      · simp [turn, heq, Answer.frees, Turn.brings?]

/-! ## Calls one after another -/

/-- What is cached under a name is the first tree that came since the name was last freed. -/
theorem get?_after (calls : List (Call G)) (name : String) :
    ((empty : Cache G).after calls).get? name = standing name ((empty : Cache G).turns calls) := by
  -- What stands under a name is looked for from the last turn backwards.
  induction calls using List.reverseRecOn with
  | nil => rfl
  | append_singleton calls call ih =>
      rw [after_concat, turns_concat, standing_concat, get?_perform, ih]
      rfl

/-- No name is cached twice. -/
def Distinct (cache : Cache G) : Prop := (cache.trees.map Tree.name).Nodup

/-- In an empty cache no name is cached twice. -/
theorem empty_distinct : (empty : Cache G).Distinct := List.nodup_nil

/-- To add a tree does not make a name be cached twice. -/
theorem Distinct.add (h : cache.Distinct) (tree : Tree G) : (cache.add tree).value.2.Distinct := by
  by_cases htaken : cache.contains tree.name = true
  · rwa [add_of_contains htaken]
  · rw [Cache.add, if_neg htaken]
    rw [contains_iff] at htaken
    rw [Distinct, List.map_append, List.map_singleton]
    simpa using h.concat htaken

/-- To remove a name does not make another one be cached twice. -/
theorem Distinct.remove_by_name (h : cache.Distinct) (name : String) :
    (cache.removeByName name).value.2.Distinct := by
  unfold Cache.removeByName
  cases cache.get? name with
  | none => exact h
  | some _ => exact h.sublist (List.filter_sublist.map _)

/-- A call keeps the names distinct. -/
theorem Distinct.perform (h : cache.Distinct) (call : Call G) :
    (cache.perform call).2.Distinct := by
  cases call with
  | add tree => exact h.add tree
  | removeByName name => exact h.remove_by_name name
  | remove tree =>
      obtain ⟨cached, -, -, heq⟩ | ⟨-, heq⟩ := cache.remove_cases tree
      · exact (congrArg Prod.snd heq).symm ▸ h.remove_by_name tree.name
      · exact (congrArg Prod.snd heq).symm ▸ h
  | loadFile registry content shop =>
      obtain ⟨tree, -, -, -, heq⟩ | ⟨error, -, heq⟩ :=
        cache.load_file_cases registry content shop
      · exact heq ▸ h.add tree
      · exact heq ▸ h

/-- No calls make a name be cached twice. -/
theorem Distinct.after (h : cache.Distinct) (calls : List (Call G)) :
    (cache.after calls).Distinct := by
  induction calls generalizing cache with
  | nil => exact h
  | cons call rest ih => exact ih (h.perform call)

/-- The cached trees are those that are found, each under its own name. -/
theorem Distinct.get?_iff (h : cache.Distinct) {name : String} {tree : Tree G} :
    cache.get? name = some tree ↔ tree ∈ cache.trees ∧ tree.name = name := by
  refine ⟨get?_eq_some, fun ⟨hmem, hname⟩ => ?_⟩
  have hsome : (cache.get? name).isSome :=
    contains_iff.2 (hname ▸ List.mem_map_of_mem hmem)
  obtain ⟨other, hother⟩ := Option.isSome_iff_exists.1 hsome
  obtain ⟨hmem', hname'⟩ := get?_eq_some hother
  rw [hother, List.inj_on_of_nodup_map h hmem' hmem (hname'.trans hname.symm)]

/-- Something comes out if the cached tree of the name has the identity that is asked for. -/
theorem Distinct.remove_is_some (h : cache.Distinct) (tree : Tree G) :
    (cache.remove tree).value.1.isSome = true ↔
      ∃ cached ∈ cache.trees, cached.name = tree.name ∧ cached.id = tree.id := by
  obtain ⟨cached, hcached, hid, heq⟩ | ⟨hothers, heq⟩ := cache.remove_cases tree
  · obtain ⟨hmem, hname⟩ := get?_eq_some hcached
    rw [heq, remove_by_name_fst, hcached]
    exact ⟨fun _ => ⟨cached, hmem, hname, hid⟩, fun _ => rfl⟩
  · rw [heq]
    refine ⟨fun hsome => (nomatch hsome), fun ⟨cached, hmem, hname, hid⟩ => ?_⟩
    exact absurd hid (hothers cached (h.get?_iff.2 ⟨hmem, hname⟩))

/-- Where identities tell trees apart, something comes out if the tree itself is cached. -/
theorem Distinct.remove_is_some_iff_mem (h : cache.Distinct) {tree : Tree G}
    (hidentity : ∀ cached ∈ cache.trees, cached.id = tree.id → cached = tree) :
    (cache.remove tree).value.1.isSome = true ↔ tree ∈ cache.trees := by
  rw [h.remove_is_some]
  exact ⟨fun ⟨cached, hmem, _, hid⟩ => hidentity cached hmem hid ▸ hmem,
    fun hmem => ⟨tree, hmem, rfl, rfl⟩⟩

/-- A cached tree comes out itself, and its name is free again. -/
theorem Distinct.remove_of_mem (h : cache.Distinct) {tree : Tree G} (hmem : tree ∈ cache.trees) :
    (cache.remove tree).value.1 = some tree ∧
      (cache.remove tree).value.2.get? tree.name = none := by
  have hfound : cache.get? tree.name = some tree := h.get?_iff.2 ⟨hmem, rfl⟩
  obtain ⟨cached, -, -, heq⟩ | ⟨hothers, -⟩ := cache.remove_cases tree
  · rw [heq, get?_remove_by_name, remove_by_name_fst, hfound]
    simp [Answer.frees]
  · exact absurd rfl (hothers tree hfound)

/-- The cache is what turns have made of it if the first tree of a name stands until it is removed,
and the next call goes by that. -/
structure FirstStands (turns : List (Turn G)) (cache : Cache G) : Prop where
  get? : ∀ name, cache.get? name = standing name turns
  /-- Every cached tree is found under its own name, and no other tree is found. -/
  own : ∀ name tree, cache.get? name = some tree ↔ tree ∈ cache.trees ∧ tree.name = name
  /-- A tree is taken if its name is free. -/
  added : ∀ tree, (cache.add tree).value.1 = true ↔ cache.get? tree.name = none
  /-- A tree that is not taken changes nothing. -/
  refused : ∀ tree, (cache.add tree).value.1 = false → (cache.add tree).value.2 = cache
  /-- Something comes out if the very tree is cached: not one of its name or shape, but the one of
  its identity. -/
  removed : ∀ tree, (cache.remove tree).value.1.isSome = true ↔
    ∃ cached ∈ cache.trees, cached.name = tree.name ∧ cached.id = tree.id
  /-- Where identities tell trees apart, this is whether the tree itself is cached. -/
  itself : ∀ tree, (∀ cached ∈ cache.trees, cached.id = tree.id → cached = tree) →
    ((cache.remove tree).value.1.isSome = true ↔ tree ∈ cache.trees)
  /-- A cached tree comes out as it was cached, and its name is free again. -/
  freed : ∀ tree ∈ cache.trees, (cache.remove tree).value.1 = some tree ∧
    (cache.remove tree).value.2.get? tree.name = none
  /-- If nothing comes out, nothing changes. -/
  spared : ∀ tree, (cache.remove tree).value.1 = none → (cache.remove tree).value.2 = cache
  /-- A load that succeeds has found the name of its tree free, and has cached the tree. -/
  loaded : ∀ registry content shop tree next,
    ((cache.loadFile registry content).outcome shop).1 = .ok (tree, next) →
      cache.get? tree.name = none ∧ next.get? tree.name = some tree ∧
        (cache.perform (.loadFile registry content shop)).2 = next
  /-- A load that fails leaves the cache as it was, whether no tree could be made of the file or the
  name of the tree is taken. -/
  failed : ∀ registry content shop error,
    ((cache.loadFile registry content).outcome shop).1 = .error error →
      (cache.perform (.loadFile registry content shop)).2 = cache
  ascending : cache.names.Pairwise fun a b => Text.bytes a < Text.bytes b
  length : cache.names.length = cache.size
  listed : ∀ name, name ∈ cache.names ↔ (cache.get? name).isSome

/-- The first tree of a name stands, whatever calls were made of the cache. -/
theorem first_tree_stands (calls : List (Call G)) :
    FirstStands ((empty : Cache G).turns calls) ((empty : Cache G).after calls) :=
  have hdistinct : ((empty : Cache G).after calls).Distinct := empty_distinct.after calls
  { get? := get?_after calls
    own := fun _ _ => hdistinct.get?_iff
    added := fun _ => add_iff
    refused := fun _ => add_refused
    removed := hdistinct.remove_is_some
    itself := fun _ => hdistinct.remove_is_some_iff_mem
    freed := fun _ => hdistinct.remove_of_mem
    spared := fun _ => remove_spared
    loaded := fun _ _ _ _ _ => perform_loaded
    failed := fun _ _ _ _ => perform_failed
    ascending := Text.sorted_ascending hdistinct
    length := by simp [names, size]
    listed := fun name => by rw [names, List.mem_mergeSort, ← contains_iff, contains] }

/-- The first of three trees called `walk` stands, though another of them was to be removed. After
it has been removed itself, the file can be loaded. -/
theorem first_tree_stands_walk :
    let load : Call Demo.game :=
      .loadFile Demo.registry (some (Load.walkDocument "Log")) { supply := ⟨4⟩ }
    let calls : List (Call Demo.game) :=
      [.add (Tree.named ⟨0⟩ "walk"), .add (Tree.named ⟨1⟩ "walk"), load,
        .remove (Tree.named ⟨1⟩ "walk")]
    ((empty.after calls).get? "walk").map Tree.id = some ⟨0⟩ ∧
      ((empty.after (calls ++ [.remove (Tree.named ⟨0⟩ "walk"), load])).get? "walk").map Tree.id =
        some ⟨4⟩ := by
  intro load calls
  rw [(first_tree_stands calls).get?, (first_tree_stands _).get?]
  exact ⟨by decide +kernel, by decide +kernel⟩

end BehaviorTree.Cache
