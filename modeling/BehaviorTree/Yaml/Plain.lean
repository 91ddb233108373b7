import BehaviorTree.Decimal.Binary

/-!
# Meanings of plain scalars

What a plain scalar stands for: nothing, a truth value, a whole number, a number with a
fraction, or else its own text. Digits after a leading zero are text.
-/

namespace BehaviorTree.Yaml.Plain

open Decimal (Width Format)

/-- Whether a text stands for nothing. The empty text is judged elsewhere. -/
def isNull (text : String) : Bool := ["null", "Null", "NULL", "~"].contains text

/-- The truth value of a text. -/
def truth? (text : String) : Option Bool :=
  if ["true", "True", "TRUE"].contains text then some true
  else if ["false", "False", "FALSE"].contains text then some false
  else none

/-- Takes one character off the front. -/
def strip? (c : Char) : List Char → Option (List Char)
  | d :: rest => if d = c then some rest else none
  | [] => none

/-- Whether a sign comes first. -/
def startsWithSign : List Char → Bool
  | '+' :: _ | '-' :: _ => true
  | _ => false

/-- Takes one sign off the front. -/
def dropSign : List Char → List Char
  | '+' :: rest | '-' :: rest => rest
  | cs => cs

/-- Digits after a leading zero, with or without a sign. -/
def isDigitsOnly (cs : List Char) : Bool :=
  match dropSign cs with
  | '0' :: c :: rest => (c :: rest).all Decimal.isDigit
  | _ => false

/-- The bases that are marked by a letter after a zero. -/
def bases : List (Char × Nat) := [('x', 16), ('o', 8), ('b', 2)]

/-- Reads digits of a marked base, unless a sign comes in between. -/
def marked? (width : Width) (cs : List Char) : Option Int :=
  bases.findSome? fun (mark, base) =>
    match cs with
    | '0' :: c :: rest => if c = mark ∧ !startsWithSign rest then width.read? base rest else none
    | _ => none

/-- Whether a sign stands between the mark of a base and its digits. -/
def hasInnerSign : List Char → Bool
  | '0' :: c :: rest => (c = 'x' || c = 'o' || c = 'b') && startsWithSign rest
  | _ => false

/-- Reads a number that is not negative. -/
def unsigned? (width : Width) (cs : List Char) : Option Int :=
  let body := (strip? '+' cs).getD cs
  if hasInnerSign body then none
  else match marked? width body with
    | some value => some value
    | none =>
        if startsWithSign body || isDigitsOnly cs then none else width.read? 10 body

/-- Reads a number with a minus sign. -/
def negative? (width : Width) (cs : List Char) : Option Int :=
  let markedValue : Option Int := bases.findSome? fun (mark, base) =>
    match cs with
    | '-' :: '0' :: c :: rest => if c = mark then width.read? base ('-' :: rest) else none
    | _ => none
  match markedValue with
  | some value => some value
  | none => if isDigitsOnly cs then none else width.read? 10 cs

/-- What whole numbers of a text there are: one that can be kept, or one that is too large
to be kept although it fits into twice the width. -/
inductive Whole where
  | kept (value : Int)
  | tooLarge
  deriving DecidableEq, Repr

/-- Reads a whole number. -/
def whole? (cs : List Char) : Option Whole :=
  match unsigned? .natural64 cs, negative? .integer64 cs with
  | some value, _ => some (.kept value)
  | none, some value => some (.kept value)
  | none, none =>
      if (unsigned? .natural128 cs).isSome || (negative? .integer128 cs).isSome then some .tooLarge
      else none

/-- Reads a number with a fraction into its bits: a finite number, an infinity, or
not-a-number. -/
def fraction? (cs : List Char) : Option Nat :=
  let body := (strip? '+' cs).getD cs
  let format := Format.double
  let isWord (words : List String) (cs : List Char) : Bool := words.any (·.toList == cs)
  if body.length < cs.length && startsWithSign body then none
  else if isWord [".inf", ".Inf", ".INF"] body then some format.infinity
  else if isWord ["-.inf", "-.Inf", "-.INF"] cs then some (format.signBit + format.infinity)
  else if isWord [".nan", ".NaN", ".NAN"] cs then some format.quietNaN
  else match Decimal.numeral? body with
    | some (.finite value) =>
        let bits := format.ofNumeral (.finite value)
        if format.isInfinite bits then none else some bits
    | _ => none

/-- What a plain scalar stands for. -/
inductive Meaning where
  | null
  | truth (value : Bool)
  | whole (value : Whole)
  | fraction (bits : Nat)
  | text
  deriving DecidableEq, Repr

/-- The meaning of a plain scalar. -/
def meaning (text : String) : Meaning :=
  let cs := text.toList
  if cs.isEmpty || isNull text then .null
  else match truth? text with
    | some value => .truth value
    | none => match whole? cs with
      | some value => .whole value
      | none =>
          if isDigitsOnly cs then .text
          else match fraction? cs with
            | some bits => .fraction bits
            | none => .text

end BehaviorTree.Yaml.Plain
