import BehaviorTree.Decimal.Whole

/-!
# Decimal and binary numbers

Decimal numbers in scientific form, and the nearest number of a binary format with a fixed
precision. All arithmetic is on natural numbers, so the result is exact by construction:
`roundDiv` rounds a quotient to the nearest whole number and a half to the even neighbour.
-/

namespace BehaviorTree.Decimal

/-- The number `digits * 10 ^ exponent`, negated if so marked. -/
structure Scientific where
  negative : Bool
  digits : Nat
  exponent : Int
  deriving DecidableEq, Repr

/-- What a text can say about a number with a fraction. -/
inductive Numeral where
  | finite (value : Scientific)
  | infinite (negative : Bool)
  | notANumber
  deriving DecidableEq, Repr

/-- The nearest whole number to a quotient, of two equally near ones the even one. -/
def roundDiv (num den : Nat) : Nat :=
  let whole := num / den
  let rest := num % den
  if 2 * rest < den then whole
  else if 2 * rest = den then whole + whole % 2
  else whole + 1

/-- A binary format: the bits of precision, the exponent of the smallest step, the bits of
infinity, and the bit of the sign. -/
structure Format where
  precision : Nat
  smallestStep : Int
  infinity : Nat
  signBit : Nat
  deriving DecidableEq, Repr

namespace Format

def single : Format := ⟨24, -149, 0x7F800000, Nat.pow 2 31⟩

def double : Format := ⟨53, -1074, 0x7FF0000000000000, Nat.pow 2 63⟩

/-- The bits of a not-a-number value. -/
def quietNaN (format : Format) : Nat := format.infinity + Nat.pow 2 (format.precision - 2)

/-- The exponent of the leading binary digit of a positive quotient. -/
def binaryExponent (num den : Nat) : Int :=
  let guess : Int := (num.log2 : Int) - (den.log2 : Int)
  let reached :=
    if guess < 0 then den ≤ num * Nat.pow 2 (-guess).toNat else den * Nat.pow 2 guess.toNat ≤ num
  if reached then guess else guess - 1

/-- The bits of the number nearest to a positive quotient, infinity where it is too large. -/
def nearest (format : Format) (num den : Nat) : Nat :=
  let step := max (binaryExponent num den - (format.precision - 1 : Nat)) format.smallestStep
  let count :=
    if step < 0 then roundDiv (num * Nat.pow 2 (-step).toNat) den
    else roundDiv num (den * Nat.pow 2 step.toNat)
  min format.infinity
    ((step - format.smallestStep).toNat * Nat.pow 2 (format.precision - 1) + count)

/-- Decimal exponents beyond which every format has only zero or infinity. -/
def decimalRange : Int := 400

/-- The bits of the number nearest to a positive decimal number. -/
def ofDigits (format : Format) (digits : Nat) (exponent : Int) : Nat :=
  let size : Int := (Nat.toDigits 10 digits).length + exponent
  if digits = 0 then 0
  else if decimalRange < size then format.infinity
  else if size < -decimalRange then 0
  else if exponent < 0 then format.nearest digits (Nat.pow 10 (-exponent).toNat)
  else format.nearest (digits * Nat.pow 10 exponent.toNat) 1

/-- The bits of a numeral. -/
def ofNumeral (format : Format) : Numeral → Nat
  | .finite value =>
      (if value.negative then format.signBit else 0) + format.ofDigits value.digits value.exponent
  | .infinite negative => (if negative then format.signBit else 0) + format.infinity
  | .notANumber => format.quietNaN

/-- The bits without the sign. -/
def magnitude (format : Format) (bits : Nat) : Nat := bits % format.signBit

def isNegative (format : Format) (bits : Nat) : Bool := format.signBit ≤ bits

def isNaN (format : Format) (bits : Nat) : Bool := format.infinity < format.magnitude bits

def isInfinite (format : Format) (bits : Nat) : Bool := format.magnitude bits == format.infinity

end Format

/-- Splits leading decimal digits off. -/
def spanDigits (cs : List Char) : List Char × List Char :=
  (cs.takeWhile isDigit, cs.dropWhile isDigit)

/-- The value of decimal digits. -/
def valueOf (digits : List Char) : Nat :=
  digits.foldl (fun value c => value * 10 + (c.toNat - 48)) 0

/-- Reads an exponent, or nothing at the end of the text. -/
def exponent? : List Char → Option Int
  | [] => some 0
  | c :: rest =>
      if c = 'e' ∨ c = 'E' then
        match rest with
        | '-' :: digits =>
            if digits ≠ [] ∧ digits.all isDigit then some (-(valueOf digits : Int)) else none
        | '+' :: digits | digits =>
            if digits ≠ [] ∧ digits.all isDigit then some (valueOf digits) else none
      else none

/-- Reads a number without a sign: digits with an optional point and exponent. -/
def unsignedScientific? (negative : Bool) (cs : List Char) : Option Scientific :=
  let (whole, rest) := spanDigits cs
  let (fraction, rest) := match rest with
    | '.' :: rest => spanDigits rest
    | rest => ([], rest)
  if whole.isEmpty && fraction.isEmpty then none
  else (exponent? rest).map fun exponent =>
    ⟨negative, valueOf (whole ++ fraction), exponent - fraction.length⟩

/-- Reads a number or one of the words for infinity and not-a-number, in any case of ASCII
letters, after an optional sign. -/
def numeral? (cs : List Char) : Option Numeral :=
  let (negative, body) : Bool × List Char := match cs with
    | '-' :: rest => (true, rest)
    | '+' :: rest => (false, rest)
    | rest => (false, rest)
  let word := body.map Char.toLower
  if word = "inf".toList ∨ word = "infinity".toList then some (.infinite negative)
  else if word = "nan".toList then some .notANumber
  else (unsignedScientific? negative body).map .finite

end BehaviorTree.Decimal
