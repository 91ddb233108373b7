import BehaviorTree.Proofs.ByteOrder
import BehaviorTree.Simulation.Demo

/-!
# Registrations one after another

A registry is filled by single registrations and by the two lists of parts, in any order. What it
makes under a name is up to the first entry for that name in the family (`Registry.FirstWins`), so
a list may come before, between or after a game's own parts (`Registry.first_registration_stands`).

`Registry.factory?` reads the three shelves alike. One registration is `Registry.factory?_register`;
entries one after another are `Registry.factory?_register_all`.
-/

namespace BehaviorTree

variable {G : Game}

/-- What makes the parts of a family. -/
abbrev Family.Factory (G : Game) : Family → Type
  | node => NodeFactory G
  | condition => ConditionFactory G
  | filter => FilterFactory G

namespace Registry

/-! ## Shelves -/

namespace Shelf

variable {α : Type} {shelf : Shelf α} {name : String}

/-- A shelf has a factory for the names that are on it, and for no others. -/
theorem get?_is_some : (shelf.get? name).isSome ↔ name ∈ shelf.map Prod.fst := by
  induction shelf with
  | nil => simp [get?]
  | cons head rest ih =>
      obtain ⟨other, factory⟩ := head
      by_cases h : other = name
      · simp [get?, h]
      · simp [get?, h, Ne.symm h, ih]

/-- A shelf lists the names that it has a factory for. -/
theorem mem_names : name ∈ shelf.names ↔ (shelf.get? name).isSome := by
  rw [names, List.mem_mergeSort, get?_is_some]

/-- No name comes to be on a shelf twice. -/
theorem add_nodup (h : (shelf.map Prod.fst).Nodup) (name : String) (factory : α) :
    ((shelf.add name factory).map Prod.fst).Nodup := by
  unfold add
  split
  · exact h
  · rename_i hfree
    rw [contains, get?_is_some] at hfree
    simpa [List.nodup_append] using ⟨h, fun other found hfound => fun heq =>
      hfree (heq ▸ List.mem_map_of_mem (f := Prod.fst) hfound)⟩

/-- A taken name is no registration. -/
theorem add_of_contains (h : shelf.contains name) (factory : α) : shelf.add name factory = shelf :=
  if_pos h

end Shelf

/-! ## One registration -/

/-- The factories of a family. -/
def shelf (registry : Registry G) : (family : Family) → Shelf (family.Factory G)
  | .node => registry.nodes
  | .condition => registry.conditions
  | .filter => registry.filters

/-- The factory registered under a name in a family. -/
def factory? (registry : Registry G) (family : Family) (name : String) :
    Option (family.Factory G) :=
  (registry.shelf family).get? name

/-- The names of the types of a family, ascending. -/
def types (registry : Registry G) : Family → List String
  | .node => registry.nodeTypes
  | .condition => registry.conditionTypes
  | .filter => registry.filterTypes

/-- The names of the types of a family are those on its shelf. -/
theorem types_eq (registry : Registry G) (family : Family) :
    registry.types family = (registry.shelf family).names := by
  cases family <;> rfl

/-- The name that an entry is for, and its family. -/
def Entry.key : Entry G → Family × String
  | .node name _ => (.node, name)
  | .condition name _ => (.condition, name)
  | .filter name _ => (.filter, name)

/-- The factory that an entry has for a name in a family. -/
def Entry.offers : Entry G → (family : Family) → String → Option (family.Factory G)
  | .node own factory, .node, name => if own = name then some factory else none
  | .condition own factory, .condition, name => if own = name then some factory else none
  | .filter own factory, .filter, name => if own = name then some factory else none
  | _, _, _ => none

/-- An entry has a factory for its own key alone. -/
theorem Entry.offers_is_some (entry : Entry G) (family : Family) (name : String) :
    (entry.offers family name).isSome ↔ entry.key = (family, name) := by
  cases entry <;> cases family <;> simp [offers, key]

variable {registry : Registry G}

/-- An empty registry has no factories. -/
@[simp] theorem factory?_empty (family : Family) (name : String) :
    (empty : Registry G).factory? family name = none := by
  cases family <;> rfl

/-- A registered factory is found unless an earlier one has the name. -/
theorem factory?_register (entry : Entry G) (family : Family) (name : String) :
    (registry.register entry).value.2.factory? family name =
      (registry.factory? family name).or (entry.offers family name) := by
  cases entry <;> cases family <;>
    simp [register, registerNode, registerCondition, registerFilter, registration, factory?, shelf,
      Entry.offers, Shelf.get?_add]

/-- A registration is taken if its name is free in its family. -/
theorem register_taken (entry : Entry G) :
    (registry.register entry).value.1 = !(registry.factory? entry.key.1 entry.key.2).isSome := by
  cases entry <;> rfl

/-- A refused registration changes nothing. -/
theorem register_refused {entry : Entry G} (h : (registry.register entry).value.1 = false) :
    (registry.register entry).value.2 = registry := by
  cases entry <;>
    · simp only [register, registerNode, registerCondition, registerFilter, registration,
        Bool.not_eq_false'] at h ⊢
      rw [Shelf.add_of_contains h]

/-! ## Registrations one after another -/

/-- The registry has what it had, and for other names what the first of the entries has. -/
theorem factory?_register_all (entries : List (Entry G)) (family : Family) (name : String) :
    (registry.registerAll entries).value.factory? family name =
      (registry.factory? family name).or
        (entries.findSome? fun entry => entry.offers family name) := by
  induction entries generalizing registry with
  | nil => simp [registerAll]
  | cons entry rest ih =>
      rw [registerAll, ih, factory?_register, Option.or_assoc, List.findSome?_cons]
      cases entry.offers family name <;> rfl

/-- Entries that are registered in two parts are registered one after another. -/
theorem register_all_append (early late : List (Entry G)) :
    (registry.registerAll (early ++ late)).value =
      ((registry.registerAll early).value.registerAll late).value := by
  induction early generalizing registry with
  | nil => rfl
  | cons entry rest ih => exact ih

/-- No name is on a shelf twice. -/
def Tidy (registry : Registry G) : Prop :=
  ∀ family, ((registry.shelf family).map Prod.fst).Nodup

/-- An empty registry has no name twice. -/
theorem empty_tidy : (empty : Registry G).Tidy := fun family => by
  cases family <;> exact List.nodup_nil

/-- A registration brings no name on a shelf twice. -/
theorem Tidy.register (h : registry.Tidy) (entry : Entry G) :
    (registry.register entry).value.2.Tidy := fun family => by
  cases entry <;> cases family <;>
    first | exact Shelf.add_nodup (h _) _ _ | exact h _

/-- Registrations bring no name on a shelf twice. -/
theorem Tidy.register_all (h : registry.Tidy) (entries : List (Entry G)) :
    (registry.registerAll entries).value.Tidy := by
  induction entries generalizing registry with
  | nil => exact h
  | cons entry rest ih => exact ih (h.register entry)

/-- The names of a family are listed in the order of their bytes. -/
theorem Tidy.types_ascending (h : registry.Tidy) (family : Family) :
    (registry.types family).Pairwise fun a b => Text.bytes a < Text.bytes b := by
  rw [types_eq]
  exact Text.sorted_ascending (h family)

/-- A family lists the names that it has a factory for. -/
theorem mem_types {family : Family} {name : String} :
    name ∈ registry.types family ↔ (registry.factory? family name).isSome := by
  rw [types_eq, Shelf.mem_names, factory?]

/-! ## The order of registrations -/

/-- Registries that cannot be told apart: they have the same factories and list the same names. -/
structure Same (registry other : Registry G) : Prop where
  factory? : ∀ family name, registry.factory? family name = other.factory? family name
  types : ∀ family, registry.types family = other.types family

/-- Registries with the same factories list the same names. -/
theorem Tidy.same {other : Registry G} (h : registry.Tidy) (hother : other.Tidy)
    (hfactory : ∀ family name, registry.factory? family name = other.factory? family name) :
    registry.Same other where
  factory? := hfactory
  types family := by
    have hnodup {registry : Registry G} (h : registry.Tidy) : (registry.types family).Nodup :=
      (h.types_ascending family).imp (S := (· ≠ ·)) fun {a b} hlt heq => by
        subst heq
        exact List.lt_irrefl _ hlt
    have hperm : (registry.types family).Perm (other.types family) :=
      (List.perm_ext_iff_of_nodup (hnodup h) (hnodup hother)).2 fun name => by
        rw [mem_types, mem_types, hfactory]
    exact hperm.eq_of_pairwise (fun a b _ _ hab hba => absurd hba (List.lt_asymm hab))
      (h.types_ascending family) (hother.types_ascending family)

/-- Of entries with different keys at most one has a factory for a name, so their order does not
matter. -/
theorem find_some?_offers_perm {entries other : List (Entry G)} (hperm : other.Perm entries)
    (hkeys : (entries.map Entry.key).Nodup) (family : Family) (name : String) :
    (other.findSome? fun entry => entry.offers family name) =
      entries.findSome? fun entry => entry.offers family name := by
  induction hperm with
  | nil => rfl
  | cons entry _ ih =>
      rw [List.map_cons, List.nodup_cons] at hkeys
      rw [List.findSome?_cons, List.findSome?_cons, ih hkeys.2]
  | swap a b rest =>
      rw [List.map_cons, List.map_cons, List.nodup_cons, List.mem_cons, not_or] at hkeys
      simp only [List.findSome?_cons]
      cases ha : a.offers family name with
      | none => cases b.offers family name <;> rfl
      | some factory =>
          cases hb : b.offers family name with
          | none => rfl
          | some _ =>
              -- Both entries would be for the same key.
              have hakey := (a.offers_is_some family name).1 (by simp [ha])
              have hbkey := (b.offers_is_some family name).1 (by simp [hb])
              exact absurd (hakey.trans hbkey.symm) hkeys.1.1
  | trans _ h ih ih' => exact (ih ((h.map Entry.key).nodup_iff.2 hkeys)).trans (ih' hkeys)

/-! ## Calls -/

/-- The ways to register: one part, or one of the two lists. -/
inductive Call (G : Game) where
  | one (entry : Entry G)
  | builtins
  | demonstration (words : Demo.Words G)

/-- The registrations of a call. -/
def Call.entries : Call G → List (Entry G)
  | one entry => [entry]
  | builtins => builtinEntries
  | demonstration words => Demo.entries words

/-- The registry after a call. -/
def perform (registry : Registry G) : Call G → Registry G
  | .one entry => (registry.register entry).value.2
  | .builtins => registry.registerBuiltins.value
  | .demonstration words => (Demo.register words registry).value

/-- The registry after calls. -/
def performAll (registry : Registry G) (calls : List (Call G)) : Registry G :=
  calls.foldl perform registry

/-- A call is its registrations one after another. -/
theorem perform_eq (call : Call G) :
    registry.perform call = (registry.registerAll call.entries).value := by
  cases call <;> rfl

/-- Calls register their entries one after another. -/
theorem perform_all_eq (calls : List (Call G)) :
    registry.performAll calls = (registry.registerAll (calls.flatMap Call.entries)).value := by
  induction calls generalizing registry with
  | nil => rfl
  | cons call rest ih =>
      rw [performAll, List.foldl_cons, ← performAll, ih, List.flatMap_cons, register_all_append,
        perform_eq]

/-- The registry is what entries that came one after another make of it if the first entry for a
name stands. -/
structure FirstWins (registry : Registry G) (entries : List (Entry G)) : Prop where
  /-- The first entry for a name makes the nodes, and nothing does where there is none. -/
  node : ∀ name args supply, registry.createNode? name args supply =
    (entries.findSome? fun entry => entry.offers .node name).map fun factory => factory args supply
  condition : ∀ name args, registry.createCondition? name args =
    (entries.findSome? fun entry => entry.offers .condition name).map fun factory => factory args
  filter : ∀ name args, registry.createFilter? name args =
    (entries.findSome? fun entry => entry.offers .filter name).map fun factory => factory args
  /-- A further registration is taken if its name is free in its family. -/
  taken : ∀ entry : Entry G, (registry.register entry).value.1 = true ↔
    ∀ earlier ∈ entries, earlier.key ≠ entry.key
  /-- A registration that is refused changes nothing in any family. -/
  refused : ∀ entry : Entry G, (registry.register entry).value.1 = false →
    (registry.register entry).value.2 = registry
  /-- The lists of names rise strictly by bytes. -/
  ascending : ∀ family, (registry.types family).Pairwise fun a b => Text.bytes a < Text.bytes b
  /-- They list the registered names. -/
  listed : ∀ family name, name ∈ registry.types family ↔
    ∃ entry ∈ entries, entry.key = (family, name)

/-- There is a factory on offer if an entry is for the name, in the family. -/
theorem is_some_find_some?_offers {entries : List (Entry G)} {family : Family} {name : String} :
    (entries.findSome? fun entry => entry.offers family name).isSome ↔
      ∃ entry ∈ entries, entry.key = (family, name) := by
  simp only [List.isSome_findSome?, List.any_eq_true, Entry.offers_is_some]

/-- Entries one after another, from nothing. -/
theorem register_all_first_wins (entries : List (Entry G)) :
    ((empty : Registry G).registerAll entries).value.FirstWins entries := by
  have hfactory (family : Family) (name : String) :
      ((empty : Registry G).registerAll entries).value.factory? family name =
        entries.findSome? fun entry => entry.offers family name := by
    rw [factory?_register_all, factory?_empty, Option.none_or]
  refine {
    node := fun name args supply => ?_, condition := fun name args => ?_,
    filter := fun name args => ?_, taken := fun entry => ?_,
    refused := fun entry => register_refused
    ascending := (empty_tidy.register_all entries).types_ascending
    listed := fun family name => ?_ }
  · rw [← hfactory .node]; rfl
  · rw [← hfactory .condition]; rfl
  · rw [← hfactory .filter]; rfl
  · rw [register_taken, hfactory, Bool.not_eq_true', ← Bool.not_eq_true, is_some_find_some?_offers]
    simp
  · rw [mem_types, hfactory, is_some_find_some?_offers]

/-- The first registration of a name in a family stands, whatever mixture of single registrations
and lists a registry is filled by. Where no name is registered twice in a family, the order of the
calls does not matter. -/
theorem first_registration_stands (calls : List (Call G)) :
    ((empty : Registry G).performAll calls).FirstWins (calls.flatMap Call.entries) ∧
      ∀ other : List (Call G), other.Perm calls →
        ((calls.flatMap Call.entries).map Entry.key).Nodup →
          ((empty : Registry G).performAll other).Same ((empty : Registry G).performAll calls) := by
  refine ⟨perform_all_eq calls ▸ register_all_first_wins _, fun other hperm hkeys => ?_⟩
  rw [perform_all_eq, perform_all_eq]
  refine (empty_tidy.register_all _).same (empty_tidy.register_all _) fun family name => ?_
  rw [factory?_register_all, factory?_register_all,
    find_some?_offers_perm (hperm.flatMap_right Call.entries) hkeys]

/-- A game's own filter may be registered before or behind both lists. Behind them a node of its
own called `Sequence` is refused, and the built-in one goes on being made. -/
theorem first_registration_stands_beside_lists :
    let own : Entry Demo.game := .filter "Sequence" fun _ => .clear
    let late : Entry Demo.game := .node "Sequence" (single fun _ head => .decorator head .fail none)
    let registry := empty.performAll [.builtins, .demonstration Demo.words, .one own]
    (registry.register late).value.1 = false ∧
      (registry.register late).value.2.createNode? "Sequence" ⟨[]⟩ .start =
        registry.createNode? "Sequence" ⟨[]⟩ .start ∧
      (empty.performAll [.one own, .demonstration Demo.words, .builtins]).Same registry := by
  intro own late registry
  have hstands := first_registration_stands
    [.builtins, .demonstration Demo.words, .one own]
  have hrefused : (registry.register late).value.1 = false := by decide +kernel
  refine ⟨hrefused, ?_, hstands.2 _ ?_ (by decide +kernel)⟩
  · rw [hstands.1.refused late hrefused]
  · exact List.reverse_perm [Call.builtins, .demonstration Demo.words, .one own]

end Registry

end BehaviorTree
