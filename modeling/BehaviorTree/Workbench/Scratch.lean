import BehaviorTree.Status
import BehaviorTree.Store

/-!
# Scratch stores

A store with five sample kinds of values, for trying a store out on its own. Two kinds are
told apart even where their values look alike.
-/

namespace BehaviorTree.Scratch

/-- Sample kinds of values. -/
inductive Kind where
  /-- Whole numbers of 64 bits with a sign. -/
  | number
  | text
  | status
  /-- Whole numbers of 64 bits. -/
  | resume
  /-- Whole numbers of 32 bits. -/
  | count
  deriving DecidableEq, Repr

/-- The values of a kind. -/
def Kind.Value : Kind → Type
  | number => Int
  | text => String
  | status => Status
  | resume | count => Nat

/-- A store of the sample kinds. -/
abbrev Scratchpad := Store Kind Kind.Value

/-- What stands for a missing value. -/
def Kind.default : (kind : Kind) → kind.Value
  | number => (0 : Int)
  | text => ""
  | status => Status.unknown
  | resume => (0 : Nat)
  | count => (0 : Nat)

/-- A value a step further on: numbers grow by a step and stay within their bits, texts are
continued, and a status is inverted. -/
def Kind.bump : (kind : Kind) → (step : kind.Value) → kind.Value → kind.Value
  | number => fun step value => (Int.bmod (Int.add value step) (Nat.pow 2 64) : Int)
  | text => fun step value => String.append value step
  | status => fun _ value => Status.invert value
  | resume => fun step value => (Nat.add value step % Nat.pow 2 64 : Nat)
  | count => fun step value => (Nat.add value step % Nat.pow 2 32 : Nat)

end BehaviorTree.Scratch
