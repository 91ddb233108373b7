import BehaviorTree.Yaml.Document
import BehaviorTree.Yaml.Plain

/-!
# Decoding documents

Reading typed data out of a document. A decoder follows aliases up to a limit on their
number, and structures up to a limit on their depth, so it ends also where a document refers
to itself. It fails without a reason: all faults of a document are alike to a caller.
-/

namespace BehaviorTree.Yaml

open Decimal (Width)

/-- Reads something out of a document, counting the aliases followed. -/
def Decoder (α : Type) : Type := Document → Nat → Option (α × Nat)

namespace Decoder

variable {α β : Type}

instance : Monad Decoder where
  pure value := fun _ followed => some (value, followed)
  bind first next := fun document followed =>
    match first document followed with
    | none => none
    | some (value, followed) => next value document followed

/-- Gives up. -/
def fail : Decoder α := fun _ _ => none

/-- Gives up unless there is a value. -/
def ofOption : Option α → Decoder α
  | some value => pure value
  | none => fail

/-- The most structures within one another. -/
def depthLimit : Nat := 128

/-- Reads a whole document. -/
def decode? (decoder : Option (Element Nat) → Decoder α) (document : Document) : Option α :=
  (decoder document.content document 0).map Prod.fst

/-- The element that an alias stands for; every other element stands for itself. -/
def follow : Element Nat → Decoder (Element Nat)
  | .aliasOf target => fun document followed =>
      if document.aliasLimit ≤ followed then none
      else (document.anchors.lookup target).map fun element => (element, followed + 1)
  | element => pure element

/-- Reads the text of any scalar as it is written. -/
def text (element : Element Nat) : Decoder String := do
  match ← follow element with
  | .scalar _ _ text => pure text
  | _ => fail

/-- Whether a scalar can be read as something else than its text: plain ones can, and
literal ones with the tag of what is asked for. -/
def isTyped (tag : Tag) (properties : Properties Nat) : ScalarStyle → Bool
  | .plain => true
  | .literal => properties.tag == some tag
  | .singleQuoted | .doubleQuoted | .folded => false

/-- Reads a number without a sign. -/
def natural (width : Width) (element : Element Nat) : Decoder Nat := do
  match ← follow element with
  | .scalar properties style text =>
      if isTyped .whole properties style then
        ofOption ((Plain.unsigned? width text.toList).map Int.toNat)
      else fail
  | _ => fail

/-- Reads a truth value. -/
def truth (element : Element Nat) : Decoder Bool := do
  match ← follow element with
  | .scalar properties style text =>
      if isTyped .truth properties style then ofOption (Plain.truth? text) else fail
  | _ => fail

/-- Whether a scalar is not written at all. -/
def isAbsent (style : ScalarStyle) (text : String) : Bool := style == .plain && text.isEmpty

/-- Goes one structure deeper, if there is room. -/
def deeper (depth : Nat) (inner : Nat → Decoder α) : Decoder α :=
  match depth with
  | 0 => fail
  | depth + 1 => inner depth

/-- Decodes each of some elements. -/
def each (read : Element Nat → Decoder α) : List (Element Nat) → Decoder (List α)
  | [] => pure []
  | element :: rest => do
      let value ← read element
      let values ← each read rest
      return value :: values

/-- Reads a sequence. A scalar that is not written is an empty one. -/
def list (depth : Nat) (read : Nat → Element Nat → Decoder α) (element : Element Nat) :
    Decoder (List α) := do
  match ← follow element with
  | .sequence _ items => deeper depth fun depth => each (read depth) items
  | .scalar _ style text => if isAbsent style text then pure [] else fail
  | _ => fail

/-- The fields of a structure by name. -/
abbrev Fields := List (String × Element Nat)

/-- Reads the fields of a structure out of a mapping. Fields that are not known are passed
over; a known field occurs at most once. -/
def fieldsOf (known : List String) : List (Element Nat) → Decoder Fields
  | key :: value :: rest => do
      let name ← text key
      let fields ← fieldsOf known rest
      if known.contains name then
        if (fields.lookup name).isSome then fail else return (name, value) :: fields
      else return fields
  | _ => pure []

/-- Reads a structure. A scalar that is not written is one without fields. -/
def record (known : List String) (depth : Nat) (read : Nat → Fields → Decoder α)
    (element : Element Nat) : Decoder α := do
  match ← follow element with
  | .mapping _ contents => deeper depth fun depth => do
      let fields ← fieldsOf known contents
      read depth fields
  | .scalar _ style text => if isAbsent style text then read depth [] else fail
  | _ => fail

/-- Reads a field that has to be there. -/
def field (fields : Fields) (name : String) (read : Element Nat → Decoder α) : Decoder α :=
  match fields.lookup name with
  | some element => read element
  | none => fail

/-- Reads a field that may be missing. -/
def fieldOr (fields : Fields) (name : String) (default : α) (read : Element Nat → Decoder α) :
    Decoder α :=
  match fields.lookup name with
  | some element => read element
  | none => pure default

/-- Reads something that may be left out by a scalar that stands for nothing. -/
def optional (read : Element Nat → Decoder α) (element : Element Nat) : Decoder (Option α) := do
  let element ← follow element
  match element with
  | .scalar properties .plain text =>
      match properties.tag with
      | some .null => if Plain.isNull text then pure none else fail
      | some _ => some <$> read element
      | none => if text.isEmpty || Plain.isNull text then pure none else some <$> read element
  | _ => some <$> read element

end Decoder

end BehaviorTree.Yaml
