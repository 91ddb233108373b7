import BehaviorTree.Decimal.Binary

/-!
# Shortest decimals

The fewest decimal digits that read back as a given binary number, and of those the nearest
to it. For each count of digits the two neighbours of the number on that decimal grid are
tried in exact arithmetic; the first count with a hit wins.
-/

namespace BehaviorTree.Decimal

/-- A positive binary number as a fraction over a common denominator, with the ends of the
interval of numbers that are rounded to it, and whether the ends belong to the interval. -/
structure Span where
  low : Nat
  middle : Nat
  high : Nat
  den : Nat
  closed : Bool
  deriving Repr

namespace Span

/-- The span of the positive finite number with the given bits. -/
def ofBits (format : Format) (bits : Nat) : Span :=
  let unit := Nat.pow 2 (format.precision - 1)
  let count := if bits < unit then bits else bits % unit + unit
  let step : Int :=
    (if bits < unit then 0 else (bits / unit : Nat) - 1 : Int) + format.smallestStep - 2
  let below := if count = unit ∧ unit * 2 ≤ bits then 4 * count - 1 else 4 * count - 2
  let scale := Nat.pow 2 step.toNat
  ⟨below * scale, 4 * count * scale, (4 * count + 2) * scale, Nat.pow 2 (-step).toNat,
    count % 2 == 0⟩

/-- Whether a fraction lies in the interval. -/
def covers (span : Span) (num den : Nat) : Bool :=
  let value := num * span.den
  if span.closed then span.low * den ≤ value && value ≤ span.high * den
  else span.low * den < value && value < span.high * den

end Span

/-- The decimal number `digits * 10 ^ exponent` as a fraction. -/
def fractionOf (digits : Nat) (exponent : Int) : Nat × Nat :=
  (digits * Nat.pow 10 exponent.toNat, Nat.pow 10 (-exponent).toNat)

/-- The nearest covered neighbour of a number on the grid of a decimal exponent. -/
def onGrid? (span : Span) (exponent : Int) : Option Nat :=
  let (one, per) := fractionOf 1 exponent
  let floor := span.middle * per / (span.den * one)
  let hit (digits : Nat) : Bool :=
    let (num, den) := fractionOf digits exponent
    span.covers num den
  match hit floor, hit (floor + 1) with
  | true, true => some (roundDiv (span.middle * per) (span.den * one))
  | true, false => some floor
  | false, true => some (floor + 1)
  | false, false => none

/-- Tries ever finer grids, at most so many. -/
def search (span : Span) : Nat → Int → Nat × Int
  | 0, exponent => (0, exponent)
  | tries + 1, exponent =>
      match onGrid? span exponent with
      | some digits => (digits, exponent)
      | none => search span tries (exponent - 1)

/-- Takes trailing zeros off, at most so many. -/
def strip : Nat → Nat × Int → Nat × Int
  | 0, number => number
  | tries + 1, (digits, exponent) =>
      if digits ≠ 0 ∧ digits % 10 = 0 then strip tries (digits / 10, exponent + 1)
      else (digits, exponent)

/-- The shortest decimal that reads back as a positive finite binary number. -/
def shortest (format : Format) (bits : Nat) : Nat × Int :=
  let span := Span.ofBits format bits
  let whole := span.middle / span.den
  let size : Int :=
    if whole = 0 then
      -((Nat.toDigits 10 (span.den / span.middle)).length : Int) + 1
    else (Nat.toDigits 10 whole).length
  strip 32 (search span 32 size)

/-- How a shortest decimal is laid out. Numbers from `10 ^ least` up to `10 ^ most` are
written out with a point, all others with an exponent. -/
structure Layout where
  least : Int
  most : Int
  deriving Repr

/-- Writes `digits * 10 ^ exponent`. -/
def Layout.write (layout : Layout) (digits : Nat) (exponent : Int) : String :=
  let ds := Nat.toDigits 10 digits
  let size : Int := ds.length + exponent
  if layout.least < size ∧ size ≤ layout.most then
    String.ofList <|
      if 0 ≤ exponent then ds ++ List.replicate exponent.toNat '0' ++ ['.', '0']
      else if 0 < size then ds.take size.toNat ++ '.' :: ds.drop size.toNat
      else '0' :: '.' :: List.replicate (-size).toNat '0' ++ ds
  else
    let tail := match ds.drop 1 with
      | [] => []
      | more => '.' :: more
    String.ofList (ds.take 1 ++ tail ++ 'e' :: (toString (size - 1)).toList)

end BehaviorTree.Decimal
