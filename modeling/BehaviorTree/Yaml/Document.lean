import BehaviorTree.Yaml.Element

/-!
# Documents

A text holds at most one document. In a document every alias is resolved to the number of
its anchor. An anchor is numbered by how many names of anchors there were before it, so a
name that is used again shares its number with the next new name, and of two elements with
one number the later is meant.
-/

namespace BehaviorTree.Yaml

/-- The names of anchors with their latest numbers. -/
abbrev AnchorNames := List (String × Nat)

namespace AnchorNames

/-- Numbers a name. -/
def bind (names : AnchorNames) (name : String) : Nat × AnchorNames :=
  (names.length, (name, names.length) :: names.filter (·.1 ≠ name))

/-- Numbers the anchor of an element, if it has one. -/
def bindIn (names : AnchorNames) (properties : Properties String) : Properties Nat × AnchorNames :=
  match properties.anchor with
  | none => ({ tag := properties.tag }, names)
  | some name =>
      let (number, names) := names.bind name
      ({ anchor := some number, tag := properties.tag }, names)

end AnchorNames

namespace Element

mutual

/-- Resolves the anchors and aliases of an element, in the order of the text. Fails at an
alias of a name that was not an anchor before. -/
def resolve? (names : AnchorNames) : Element String → Option (Element Nat × AnchorNames)
  | aliasOf target => (names.lookup target).map fun number => (aliasOf number, names)
  | scalar properties style text =>
      let (properties, names) := names.bindIn properties
      some (scalar properties style text, names)
  | sequence properties items => do
      let (properties, names) := names.bindIn properties
      let (items, names) ← resolveAll? names items
      return (sequence properties items, names)
  | mapping properties contents => do
      let (properties, names) := names.bindIn properties
      let (contents, names) ← resolveAll? names contents
      return (mapping properties contents, names)

/-- Resolves elements in order. -/
def resolveAll? (names : AnchorNames) :
    List (Element String) → Option (List (Element Nat) × AnchorNames)
  | [] => some ([], names)
  | element :: rest => do
      let (element, names) ← resolve? names element
      let (rest, names) ← resolveAll? names rest
      return (element :: rest, names)

end

/-- The properties of an element. An alias has none. -/
def properties {α : Type} : Element α → Properties α
  | aliasOf _ => {}
  | scalar properties _ _ | sequence properties _ | mapping properties _ => properties

/-- Adds an element to those found if it is anchored. -/
def mark (element : Element Nat) (found : List (Nat × Element Nat)) : List (Nat × Element Nat) :=
  match element.properties.anchor with
  | none => found
  | some number => (number, element) :: found

mutual

/-- The anchored elements with their numbers, the later ones first. -/
def anchored : Element Nat → List (Nat × Element Nat) → List (Nat × Element Nat)
  | element@(aliasOf _), found | element@(scalar _ _ _), found => mark element found
  | element@(sequence _ items), found => anchoredAll items (mark element found)
  | element@(mapping _ contents), found => anchoredAll contents (mark element found)

/-- The anchored elements of a list, the later ones first. -/
def anchoredAll : List (Element Nat) → List (Nat × Element Nat) → List (Nat × Element Nat)
  | [], found => found
  | element :: rest, found => anchoredAll rest (anchored element found)

end

mutual

/-- The number of marks of an element: one for a scalar or an alias, two for the ends of
anything else, and those of its contents. -/
def size {α : Type} : Element α → Nat
  | aliasOf _ | scalar _ _ _ => 1
  | sequence _ items => 2 + sizeAll items
  | mapping _ contents => 2 + sizeAll contents

/-- The number of marks of several elements. -/
def sizeAll {α : Type} : List (Element α) → Nat
  | [] => 0
  | element :: rest => size element + sizeAll rest

end

end Element

/-- A document: its content, if there is any, and the anchored elements by number. -/
structure Document where
  content : Option (Element Nat)
  anchors : List (Nat × Element Nat)

namespace Document

/-- A text without a document. -/
def void : Document := ⟨none, []⟩

/-- The most aliases that are followed in reading a document. -/
def aliasLimit (document : Document) : Nat :=
  100 * match document.content with
    | none => 1
    | some content => content.size

/-- The document with a content. -/
def ofElement? (element : Element String) : Option Document := do
  let (content, _) ← element.resolve? []
  return ⟨some content, content.anchored []⟩

/-- Reads directives. A version occurs at most once and is 1.1 or 1.2; a handle is given at
most once. -/
def directives? (version : Bool) (handles : Element.Handles) :
    List Token → Option (Element.Handles × List Token)
  | .version major minor :: rest =>
      if version || major ≠ 1 || (minor ≠ 1 && minor ≠ 2) then none
      else directives? true handles rest
  | .handle name leader :: rest =>
      if (handles.lookup name).isSome then none
      else directives? version ((name, leader) :: handles) rest
  | tokens => some (handles, tokens)

/-- Whether a document without content ends at a token. -/
def endsContent : Token → Bool
  | .version _ _ | .handle _ _ | .documentStart | .documentEnd | .streamEnd => true
  | _ => false

/-- Reads the content of a document after its start. -/
def content? (handles : Element.Handles) (tokens : List Token) :
    Option (Element String × List Token) :=
  match tokens with
  | [] => none
  | token :: _ =>
      if endsContent token then some (Element.absent, tokens)
      else
        Element.read? (handles ++ Element.standardHandles) true false (4 * tokens.length + 4) tokens

/-- Reads the one document of a text. -/
def ofTokens? (tokens : List Token) : Option Document := do
  match tokens with
  | [.streamEnd] => return void
  | .version _ _ :: _ | .handle _ _ :: _ | .documentStart :: _ =>
      let (handles, tokens) ← directives? false [] tokens
      let .documentStart :: tokens := tokens | none
      finish? (← content? handles tokens)
  | .documentEnd :: _ => none
  | _ => finish? (← content? [] tokens)
where
  /-- After the document only marks of its end may come. -/
  finish? : Element String × List Token → Option Document
    | (element, tokens) =>
        if tokens.dropWhile (· == .documentEnd) == [.streamEnd] then ofElement? element else none

/-- Reads the one document of a text. -/
def ofText? (text : String) : Option Document := (Token.ofText? text).bind ofTokens?

end Document

end BehaviorTree.Yaml
