import BehaviorTree.Tree.Node

/-!
# Outlines

The indented text of a tree: a line for the top, then one line per node in preorder,
indented by two spaces per level.
-/

namespace BehaviorTree

variable {G : Game}

namespace Node

/-- The line of a node at a depth. -/
def outlineLine (depth : Nat) (node : Node G) : String :=
  String.ofList (List.replicate (depth * 2) ' ') ++ node.typeName ++ " " ++ node.id.text ++
    (if node.mustComplete then " [must-complete]" else "") ++
    (match node.gate with
    | none => ""
    | some condition => " if " ++ condition.describe)

mutual

/-- The lines of a node at a depth and of everything below it. -/
def outline (depth : Nat) : Node G → List String
  | node@(composite _ _ children) => outlineLine depth node :: outlineAll (depth + 1) children
  | node@(decorator _ _ child) => outlineLine depth node :: outlineChild (depth + 1) child
  | node@(timed _ _ _) | node@(action _ _ _ _) => [outlineLine depth node]

/-- The lines of several subtrees, one subtree after the other. -/
def outlineAll (depth : Nat) : List (Node G) → List String
  | [] => []
  | node :: rest => outline depth node ++ outlineAll depth rest

/-- The lines of a subtree, if there is one. -/
def outlineChild (depth : Nat) : Option (Node G) → List String
  | none => []
  | some node => outline depth node

end

end Node

namespace Tree

/-- The first line of an outline shows the tree's name in place of a gate. -/
def titleLine (tree : Tree G) : String := "Root " ++ tree.id.text ++ " (" ++ tree.name ++ ")"

/-- The outline, line by line. -/
def outline (tree : Tree G) : List String := tree.titleLine :: Node.outlineChild 1 tree.child

/-- The outline as one text, every line ended. -/
def render (tree : Tree G) : String := String.join (tree.outline.map (· ++ "\n"))

end Tree

end BehaviorTree
