import BehaviorTree.Yaml.Decoder
import BehaviorTree.Decimal.Shortest

/-!
# Values

Data of no fixed type, as it is written in a document. The keys of a mapping are values too,
and no two of them are the same.
-/

namespace BehaviorTree.Yaml

open Decimal (Format)

/-- Data of no fixed type. A number with a fraction is given by its bits. -/
inductive Value where
  | null
  | truth (value : Bool)
  | whole (value : Int)
  | fraction (bits : Nat)
  | text (value : String)
  | sequence (items : List Value)
  | mapping (entries : List (Value × Value))
  | tagged (name : String) (value : Value)
  deriving Inhabited, Repr

namespace Value

/-- Numbers with a fraction are written with a point from `10 ^ -5` up to `10 ^ 16`. -/
def layout : Decimal.Layout := ⟨-5, 16⟩

/-- The text of a number with a fraction. -/
def fractionText (bits : Nat) : String :=
  let format := Format.double
  let size := format.magnitude bits
  let sign := if format.isNegative bits then "-" else ""
  if format.isNaN bits then ".nan"
  else if format.isInfinite bits then sign ++ ".inf"
  else if size = 0 then sign ++ "0.0"
  else
    let (digits, exponent) := Decimal.shortest format size
    sign ++ layout.write digits exponent

/-- Whether two numbers with a fraction count as the same key. -/
def sameFraction (a b : Nat) : Bool :=
  let format := Format.double
  a == b || (format.isNaN a && format.isNaN b) ||
    (format.magnitude a == 0 && format.magnitude b == 0)

mutual

/-- Whether two values count as the same key. The order within a mapping does not matter. -/
def same : Value → Value → Bool
  | null, null => true
  | truth a, truth b => a == b
  | whole a, whole b => a == b
  | fraction a, fraction b => sameFraction a b
  | text a, text b => a == b
  | sequence as, sequence bs => sameAll as bs
  | mapping as, mapping bs => as.length == bs.length && sameEntries as bs
  | tagged m a, tagged n b => m == n && same a b
  | _, _ => false

/-- Whether two lists have the same values in order. -/
def sameAll : List Value → List Value → Bool
  | [], [] => true
  | a :: as, b :: bs => same a b && sameAll as bs
  | _, _ => false

/-- Whether every entry of one mapping occurs in another. -/
def sameEntries : List (Value × Value) → List (Value × Value) → Bool
  | [], _ => true
  | (key, value) :: rest, others =>
      others.any (fun (k, v) => same key k && same value v) && sameEntries rest others

end

/-- The value of a plain scalar. -/
def ofPlain (content : String) : Decoder Value :=
  match Plain.meaning content with
  | .null => pure null
  | .truth value => pure (truth value)
  | .whole (.kept value) => pure (whole value)
  | .whole .tooLarge => Decoder.fail
  | .fraction bits => pure (fraction bits)
  | .text => pure (text content)

/-- The value of a scalar whose own tag, if any, has been seen to. -/
def ofUntagged (style : ScalarStyle) (content : String) : Decoder Value :=
  if style = .plain then ofPlain content else pure (text content)

/-- The value of a scalar. One with a tag that is not known is a text. -/
def ofScalar (properties : Properties Nat) (style : ScalarStyle) (content : String) :
    Decoder Value :=
  match properties.tag with
  | none | some .nameless => ofUntagged style content
  | some (.own name) => tagged name <$> ofUntagged style content
  | some .null => if Plain.isNull content then pure null else Decoder.fail
  | some .truth => Decoder.ofOption ((Plain.truth? content).map truth)
  | some .whole =>
      match Plain.whole? content.toList with
      | some (.kept value) => pure (whole value)
      | some .tooLarge | none => Decoder.fail
  | some .fraction => Decoder.ofOption ((Plain.fraction? content.toList).map fraction)
  | some .foreign => pure (text content)

/-- Adds the name from a tag of the game. No other tag says anything about a structure. -/
def named (tag : Option Tag) (value : Value) : Value :=
  match tag with
  | some (.own name) => tagged name value
  | _ => value

/-- Puts keys and values together. Fails at a key that occurred before. -/
def entriesOf (before : List (Value × Value)) : List Value → Decoder (List (Value × Value))
  | key :: value :: rest =>
      if before.any fun (k, _) => same key k then Decoder.fail
      else entriesOf (before ++ [(key, value)]) rest
  | _ => pure before

/-- Reads a value that has at most so many structures within one another. -/
def decode : Nat → Element Nat → Decoder Value
  | 0, element => do
      match ← Decoder.follow element with
      | .scalar properties style content => ofScalar properties style content
      | _ => Decoder.fail
  | depth + 1, element => do
      match ← Decoder.follow element with
      | .aliasOf _ => Decoder.fail
      | .scalar properties style content => ofScalar properties style content
      | .sequence properties items => do
          let items ← Decoder.each (decode depth) items
          return named properties.tag (sequence items)
      | .mapping properties contents => do
          let contents ← Decoder.each (decode depth) contents
          let entries ← entriesOf [] contents
          return named properties.tag (mapping entries)

end Value

end BehaviorTree.Yaml
