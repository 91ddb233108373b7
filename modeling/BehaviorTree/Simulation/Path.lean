/-!
# Paths of files

Paths are texts with slashes between the names of directories. Nothing is looked up; only
the texts are put together and taken apart.
-/

namespace BehaviorTree.Path

/-- Whether a path starts at the top. -/
def isAbsolute (path : String) : Bool := path.toList.head? == some '/'

/-- A path seen from another one: itself if it starts at the top. -/
def join (base path : String) : String :=
  if isAbsolute path || base.isEmpty then path
  else if base.toList.getLast? == some '/' then base ++ path
  else base ++ "/" ++ path

/-- Cuts separators and names of the same directory off the end of a reversed path that
comes after a name. -/
def cutEnd : List Char → List Char
  | '/' :: rest => if rest.isEmpty then ['/'] else cutEnd rest
  | '.' :: '/' :: rest => if rest.isEmpty then ['/'] else cutEnd rest
  | cs => cs

/-- The path without its last name. The top and the empty path have none. -/
def parent? (path : String) : Option String :=
  let trimmed := cutEnd path.toList.reverse
  if trimmed.isEmpty ∨ trimmed = ['/'] then none
  else some (String.ofList (cutEnd (trimmed.dropWhile (· ≠ '/'))).reverse)

/-- The names that a relative path goes through, without those of the same directory. -/
def steps (path : String) : List String :=
  (path.splitToList (· == '/')).filter fun name => name ≠ "" && name ≠ "."

/-- Follows the names of a path within known directories, from the innermost directory that
was entered. A path must not leave the starting directory, and every directory that it
enters has to exist. -/
def follow? (isDirectory : List String → Bool) : List String → List String → Option (List String)
  | entered, [] => some entered
  | entered, ".." :: rest =>
      match entered with
      | [] => none
      | _ :: outer => follow? isDirectory outer rest
  | entered, name :: rest =>
      let next := name :: entered
      if rest.isEmpty || isDirectory next.reverse then follow? isDirectory next rest else none

end BehaviorTree.Path
