/-!
# Tags

What a tag says about an element. The standard has tags for the kinds of scalars. A tag that
starts with an exclamation mark belongs to the game and gives the element a name. All other
tags are known to nobody.
-/

namespace BehaviorTree.Yaml

/-- The characters of a tag as they are read. Escaped bytes that are no character in UTF-8
count as one without a value. -/
abbrev TagText := List (Option Char)

/-- What a tag says about an element. -/
inductive Tag where
  | null
  | truth
  | whole
  | fraction
  /-- A tag of the game with its name. -/
  | own (name : String)
  /-- A tag of the game whose name is no text. -/
  | nameless
  | foreign
  deriving DecidableEq, Repr

namespace Tag

/-- The tags of the standard that say something. -/
def standard : List (String × Tag) := [
  ("tag:yaml.org,2002:null", null), ("tag:yaml.org,2002:bool", truth),
  ("tag:yaml.org,2002:int", whole), ("tag:yaml.org,2002:float", fraction)]

/-- Drops the exclamation mark at the start of a tag. A mark that stands alone stays. -/
def dropMark : List Char → List Char
  | '!' :: c :: rest => c :: rest
  | cs => cs

/-- The name in a tag of the game. Neither the exclamation mark at its start nor another one
right behind belongs to the name. -/
def nameOf (cs : List Char) : String := String.ofList (dropMark (dropMark cs))

/-- The characters of the tag of the game with a name. -/
def ofName (name : String) : List Char :=
  let cs := name.toList
  if cs.head? = some '!' then cs else '!' :: cs

/-- The tag that some characters spell. -/
def ofText (text : TagText) : Tag :=
  match text.mapM id with
  | some cs =>
      if cs.head? = some '!' then own (nameOf cs)
      else (standard.lookup (String.ofList cs)).getD foreign
  | none => if text.head? = some (some '!') then nameless else foreign

/-- A name without an exclamation mark at its start is read back from its tag. -/
theorem name_of_of_name {name : String} (hmark : name.toList.head? ≠ some '!')
    (hname : name.toList ≠ []) : nameOf (ofName name) = name := by
  rw [ofName, if_neg hmark, nameOf]
  match hcs : name.toList with
  | [] => exact absurd hcs hname
  | c :: rest =>
      have hc : c ≠ '!' := fun h => hmark (by simp [hcs, h])
      have hkept : dropMark (c :: rest) = c :: rest := by
        unfold dropMark
        split
        · rename_i heq
          exact absurd (List.cons.inj heq).1 hc
        · rfl
      change String.ofList (dropMark (c :: rest)) = name
      rw [hkept, ← hcs, String.ofList_toList]

end Tag

end BehaviorTree.Yaml
