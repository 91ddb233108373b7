import BehaviorTree.Simulation.Path

/-!
# Folders in memory

A folder of texts that a simulation can be run in without a file system. Paths are relative
to the folder and do not leave it.
-/

namespace BehaviorTree.Simulation

/-- Texts by the names on their paths. -/
structure Folder where
  files : List (List String × String)
  deriving DecidableEq, Repr

namespace Folder

/-- A folder of texts by relative path. -/
def ofList (files : List (String × String)) : Folder :=
  ⟨files.map fun (path, text) => (Path.steps path, text)⟩

/-- Whether names lead to a folder. -/
def isDirectory (folder : Folder) (names : List String) : Bool :=
  folder.files.any fun (path, _) => names.isPrefixOf path && names.length < path.length

/-- Whether a path can only be that of a folder. -/
def namesDirectory (path : String) : Bool :=
  match path.toList.reverse with
  | '/' :: _ | '.' :: '/' :: _ => true
  | _ => false

/-- The text of a file. -/
def read? (folder : Folder) (path : String) : Option String :=
  if Path.isAbsolute path || namesDirectory path then none
  else do
    let names ← Path.follow? folder.isDirectory [] (Path.steps path)
    folder.files.lookup names.reverse

end Folder

end BehaviorTree.Simulation
