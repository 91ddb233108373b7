import BehaviorTree.Yaml.Token

/-!
# Elements

The structure of a document: scalars, sequences and mappings with their anchors and tags,
and aliases of anchors. Anchors are names as they are read and numbers once they are
resolved (`Document.ofElement?`), hence the parameter.
-/

namespace BehaviorTree.Yaml

/-- The anchor and the tag of an element. -/
structure Properties (α : Type) where
  anchor : Option α := none
  tag : Option Tag := none
  deriving Repr

/-- An element of a document. The contents of a mapping are its keys and values in turn. -/
inductive Element (α : Type) where
  | aliasOf (target : α)
  | scalar (properties : Properties α) (style : ScalarStyle) (text : String)
  | sequence (properties : Properties α) (items : List (Element α))
  | mapping (properties : Properties α) (contents : List (Element α))
  deriving Inhabited

namespace Element

/-- A scalar that is not written at all. -/
def absent : Element String := scalar {} .plain ""

/-- What handles of tags stand for. -/
abbrev Handles := List (String × TagText)

/-- The handles known to every document. -/
def standardHandles : Handles :=
  [("!", [some '!']), ("!!", "tag:yaml.org,2002:".toList.map some)]

/-- The tag meant by a handle and a suffix. -/
def resolveTag? (handles : Handles) (handle : String) (suffix : TagText) : Option Tag :=
  if handle.isEmpty then some (Tag.ofText suffix)
  else (handles.lookup handle).map fun leader => Tag.ofText (leader ++ suffix)

/-- Reads an anchor and a tag in either order. -/
def properties? (handles : Handles) : List Token → Option (Properties String × List Token)
  | .anchor anchor :: .tag handle suffix :: rest => do
      return ({ anchor, tag := ← resolveTag? handles handle suffix }, rest)
  | .anchor anchor :: rest => some ({ anchor }, rest)
  | .tag handle suffix :: .anchor anchor :: rest => do
      return ({ anchor, tag := ← resolveTag? handles handle suffix }, rest)
  | .tag handle suffix :: rest => do
      return ({ tag := ← resolveTag? handles handle suffix }, rest)
  | tokens => some ({}, tokens)

/-- Where no content follows, an anchor or a tag makes a scalar that is not written. -/
def orAbsent? (properties : Properties String) (tokens : List Token) :
    Option (Element String × List Token) :=
  if properties.anchor.isSome || properties.tag.isSome then
    some (scalar properties .plain "", tokens)
  else none

/-- Moves over the comma between two items; there is none before the first. -/
def separated? (first : Bool) : List Token → Option (List Token)
  | .flowEntry :: rest => if first then some (.flowEntry :: rest) else some rest
  | tokens => if first then some tokens else none

mutual

/-- Reads an element. Block structures are read only where `block` allows them, and a
sequence without indentation of its own only where `unindented` does. -/
def read? (handles : Handles) (block unindented : Bool) :
    Nat → List Token → Option (Element String × List Token)
  | 0, _ => none
  | _ + 1, .aliasOf name :: rest => some (aliasOf name, rest)
  | fuel + 1, tokens => do
      let (properties, tokens) ← properties? handles tokens
      match tokens with
      | .scalar style text :: rest => return (scalar properties style text, rest)
      | .flowSequenceStart :: rest =>
          let (items, rest) ← flowItems? handles true fuel rest
          return (sequence properties items, rest)
      | .flowMappingStart :: rest =>
          let (contents, rest) ← flowPairs? handles true fuel rest
          return (mapping properties contents, rest)
      | .blockEntry :: _ =>
          if unindented then
            let (items, rest) ← entries? handles fuel tokens
            return (sequence properties items, rest)
          else orAbsent? properties tokens
      | .blockSequenceStart :: rest =>
          if block then
            let (items, rest) ← blockItems? handles fuel rest
            return (sequence properties items, rest)
          else orAbsent? properties tokens
      | .blockMappingStart :: rest =>
          if block then
            let (contents, rest) ← blockPairs? handles fuel rest
            return (mapping properties contents, rest)
          else orAbsent? properties tokens
      | _ => orAbsent? properties tokens

/-- Reads the entries of a block sequence up to its end. -/
def blockItems? (handles : Handles) : Nat → List Token → Option (List (Element String) × List Token)
  | 0, _ => none
  | _ + 1, .blockEnd :: rest => some ([], rest)
  | fuel + 1, .blockEntry :: tokens => do
      let (item, tokens) ← match tokens with
        | .blockEntry :: _ | .blockEnd :: _ => some (absent, tokens)
        | _ => read? handles true false fuel tokens
      let (items, tokens) ← blockItems? handles fuel tokens
      return (item :: items, tokens)
  | _ + 1, _ => none

/-- Reads the entries of a sequence without indentation of its own. -/
def entries? (handles : Handles) : Nat → List Token → Option (List (Element String) × List Token)
  | 0, _ => none
  | fuel + 1, .blockEntry :: tokens => do
      let (item, tokens) ← match tokens with
        | .blockEntry :: _ | .key :: _ | .value :: _ | .blockEnd :: _ => some (absent, tokens)
        | _ => read? handles true false fuel tokens
      let (items, tokens) ← entries? handles fuel tokens
      return (item :: items, tokens)
  | _ + 1, tokens => some ([], tokens)

/-- Reads the keys and values of a block mapping up to its end. -/
def blockPairs? (handles : Handles) : Nat → List Token → Option (List (Element String) × List Token)
  | 0, _ => none
  | _ + 1, .blockEnd :: rest => some ([], rest)
  | fuel + 1, .key :: tokens => do
      let (key, tokens) ← match tokens with
        | .key :: _ | .value :: _ | .blockEnd :: _ => some (absent, tokens)
        | _ => read? handles true true fuel tokens
      let (value, tokens) ← match tokens with
        | .value :: tokens => match tokens with
          | .key :: _ | .value :: _ | .blockEnd :: _ => some (absent, tokens)
          | _ => read? handles true true fuel tokens
        | _ => some (absent, tokens)
      let (contents, tokens) ← blockPairs? handles fuel tokens
      return (key :: value :: contents, tokens)
  | _ + 1, _ => none

/-- Reads the items of a sequence in brackets up to the closing one. -/
def flowItems? (handles : Handles) (first : Bool) :
    Nat → List Token → Option (List (Element String) × List Token)
  | 0, _ => none
  | _ + 1, .flowSequenceEnd :: rest => some ([], rest)
  | fuel + 1, tokens => do
      let tokens ← separated? first tokens
      match tokens with
      | .flowSequenceEnd :: rest => return ([], rest)
      | .key :: tokens =>
          let (pair, tokens) ← singlePair? handles fuel tokens
          let (items, tokens) ← flowItems? handles false fuel tokens
          return (mapping {} pair :: items, tokens)
      | _ =>
          let (item, tokens) ← read? handles false false fuel tokens
          let (items, tokens) ← flowItems? handles false fuel tokens
          return (item :: items, tokens)

/-- Reads the only key and value of a mapping that stands in a sequence without brackets of
its own. A missing key takes the token after it along. -/
def singlePair? (handles : Handles) : Nat → List Token → Option (List (Element String) × List Token)
  | 0, _ => none
  | fuel + 1, tokens => do
      let (key, tokens) ← match tokens with
        | .value :: rest | .flowEntry :: rest | .flowSequenceEnd :: rest => some (absent, rest)
        | _ => read? handles false false fuel tokens
      let (value, tokens) ← match tokens with
        | .value :: tokens => match tokens with
          | .flowEntry :: _ | .flowSequenceEnd :: _ => some (absent, tokens)
          | _ => read? handles false false fuel tokens
        | _ => some (absent, tokens)
      return ([key, value], tokens)

/-- Reads the keys and values of a mapping in braces up to the closing one. -/
def flowPairs? (handles : Handles) (first : Bool) :
    Nat → List Token → Option (List (Element String) × List Token)
  | 0, _ => none
  | _ + 1, .flowMappingEnd :: rest => some ([], rest)
  | fuel + 1, tokens => do
      let tokens ← separated? first tokens
      match tokens with
      | .flowMappingEnd :: rest => return ([], rest)
      | .key :: tokens =>
          let (key, tokens) ← match tokens with
            | .value :: _ | .flowEntry :: _ | .flowMappingEnd :: _ => some (absent, tokens)
            | _ => read? handles false false fuel tokens
          let (value, tokens) ← match tokens with
            | .value :: tokens => match tokens with
              | .flowEntry :: _ | .flowMappingEnd :: _ => some (absent, tokens)
              | _ => read? handles false false fuel tokens
            | _ => some (absent, tokens)
          let (contents, tokens) ← flowPairs? handles false fuel tokens
          return (key :: value :: contents, tokens)
      | _ =>
          let (key, tokens) ← read? handles false false fuel tokens
          let (contents, tokens) ← flowPairs? handles false fuel tokens
          return (key :: absent :: contents, tokens)

end

end Element

end BehaviorTree.Yaml
