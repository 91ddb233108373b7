import BehaviorTree.Decimal.Binary
import BehaviorTree.Text.Blank

/-!
# Arguments of factories

An ordered list of texts. A missing argument reads as the empty text, and one that cannot be
read as the kind that is asked for reads as the default of that kind, so factories never
fail on their arguments. Every reading cuts white space off both ends first.
-/

namespace BehaviorTree

open Decimal (Width Format)

/-- The arguments handed to a factory, as they were written. -/
structure Arguments where
  values : List String
  deriving DecidableEq, Repr

namespace Arguments

def size (args : Arguments) : Nat := args.values.length

/-- All arguments, trimmed. -/
def texts (args : Arguments) : List String := args.values.map Text.trim

/-- The argument at a position, trimmed; empty if there is none. -/
def text (args : Arguments) (index : Nat) : String := (args.values[index]?.map Text.trim).getD ""

/-- Reads a whole number of a width. -/
def whole? (width : Width) (text : String) : Option Int := width.read? 10 text.toList

/-- Reads a truth value, which is spelled in lower case. -/
def truth? (text : String) : Option Bool :=
  if text = "true" then some true else if text = "false" then some false else none

/-- Reads a single character. -/
def char? (text : String) : Option Char :=
  match text.toList with
  | [c] => some c
  | _ => none

/-- Reads a number with a fraction into the bits of a format. -/
def bits? (format : Format) (text : String) : Option Nat :=
  (Decimal.numeral? text.toList).map format.ofNumeral

/-- The whole number at a position, or zero. -/
def whole (args : Arguments) (width : Width) (index : Nat) : Int :=
  (whole? width (args.text index)).getD 0

/-- The whole number without a sign at a position, or zero. -/
def count (args : Arguments) (bits index : Nat) : Nat := (args.whole ⟨false, bits⟩ index).toNat

/-- The truth value at a position, or false. -/
def truth (args : Arguments) (index : Nat) : Bool := (truth? (args.text index)).getD false

/-- The character at a position, or the null character. -/
def char (args : Arguments) (index : Nat) : Char := (char? (args.text index)).getD '\x00'

/-- The bits of the number at a position, or of zero. -/
def bits (args : Arguments) (format : Format) (index : Nat) : Nat :=
  (bits? format (args.text index)).getD 0

/-- Whether a trimmed text reads as a set flag: one of three words in any case of ASCII
letters, or a number of 64 bits other than zero. -/
def isSet (text : String) : Bool :=
  let word := text.toList.map Char.toLower
  word = "true".toList || word = "yes".toList || word = "on".toList ||
    (whole? Width.integer64 text).any fun value => value ≠ 0

/-- The flag at a position. -/
def flag (args : Arguments) (index : Nat) : Bool := isSet (args.text index)

/-- The arguments that can be read, in order. -/
def collect {α : Type} (args : Arguments) (read : String → Option α) : List α :=
  args.texts.filterMap read

/-- The arguments that are whole numbers of a width, in order. -/
def wholes (args : Arguments) (width : Width) : List Int := args.collect (whole? width)

/-- The arguments that are whole numbers without a sign, in order. -/
def counts (args : Arguments) (bits : Nat) : List Nat := (args.wholes ⟨false, bits⟩).map Int.toNat

end Arguments

end BehaviorTree
