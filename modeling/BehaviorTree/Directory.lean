/-!
# Directories

Things kept under names. A name leads to the thing that was put there last (`get?_put`), or
to none once it was removed (`get?_drop`).
-/

namespace BehaviorTree

universe u

variable {α : Type u}

/-- Things by name, the latest first. -/
structure Directory (α : Type u) where
  entries : List (String × α) := []

namespace Directory

/-- Nothing is kept. -/
def empty : Directory α := {}

/-- The thing kept under a name. -/
def get? (directory : Directory α) (name : String) : Option α := directory.entries.lookup name

/-- Forgets what is kept under a name. -/
def drop (directory : Directory α) (name : String) : Directory α :=
  ⟨directory.entries.filter fun entry => entry.1 != name⟩

/-- Keeps a thing under a name, in the place of an earlier one. -/
def put (directory : Directory α) (name : String) (value : α) : Directory α :=
  ⟨(name, value) :: (directory.drop name).entries⟩

/-- Keeps a thing under a name if there is one to be kept. -/
def put? (directory : Directory α) (name : String) : Option α → Directory α
  | none => directory
  | some value => directory.put name value

/-- Whether something that is kept has a property. -/
def any (directory : Directory α) (holds : String → α → Bool) : Bool :=
  directory.entries.any fun entry => holds entry.1 entry.2

/-- Nothing is kept under any name at first. -/
@[simp] theorem get?_empty (name : String) : (empty : Directory α).get? name = none := rfl

/-- Forgetting a name leaves the others alone. -/
theorem get?_drop (directory : Directory α) (name other : String) :
    (directory.drop name).get? other = if name = other then none else directory.get? other := by
  obtain ⟨entries⟩ := directory
  simp only [get?, drop]
  induction entries with
  | nil => simp
  | cons head rest ih =>
      obtain ⟨n, value⟩ := head
      grind

/-- A name leads to the thing that was put there last. -/
theorem get?_put (directory : Directory α) (name other : String) (value : α) :
    (directory.put name value).get? other =
      if name = other then some value else directory.get? other := by
  have h := get?_drop directory name other
  simp only [get?] at h
  simp only [get?, put, List.lookup_cons, h]
  grind

end Directory

end BehaviorTree
