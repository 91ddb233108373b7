/-!
# Identities

Numbers that name nodes, entities and zones. A node's number is issued once, when the node
is constructed (`Supply.issue`), and never again, so it can key what an agent remembers
about the node. The supply is taken not to be exhausted: stored numbers have 64 bits, and the last
of them stands for no node.
-/

namespace BehaviorTree

/-- The number of a game entity. Agents are keyed by it and filters select it. -/
abbrev EntityId := Nat

/-- The identity of a tree node. -/
structure NodeId where
  raw : Nat
  deriving DecidableEq, Repr

namespace NodeId

/-- Stored numbers have 64 bits. -/
def bound : Nat := Nat.pow 2 64

/-- The last number of 64 bits, which stands for no node. A supply that is not exhausted does not
get that far. -/
def invalid : NodeId := ⟨bound - 1⟩

instance : Inhabited NodeId := ⟨invalid⟩

def isValid (id : NodeId) : Bool := id != invalid

/-- The written form: the number after a hash sign, or `#invalid`. -/
def text (id : NodeId) : String :=
  if id.isValid then "#" ++ toString id.raw else "#invalid"

/-- The form shown to programmers. -/
def debug (id : NodeId) : String := "NodeId(" ++ toString id.raw ++ ")"

end NodeId

/-- The identity of a zone. -/
structure ZoneId where
  raw : Nat
  deriving DecidableEq, Repr

namespace ZoneId

/-- Zone numbers have 32 bits. -/
def bound : Nat := Nat.pow 2 32

/-- The written form of a zone's identity. -/
def text (zone : ZoneId) : String := "zone-" ++ toString zone.raw

/-- The form shown to programmers. -/
def debug (zone : ZoneId) : String := "ZoneId(" ++ toString zone.raw ++ ")"

end ZoneId

/-- The source of node identities: everything below `next` has been issued. -/
structure Supply where
  next : Nat
  deriving DecidableEq, Repr, Inhabited

namespace Supply

/-- No identity has been issued yet. -/
def start : Supply := ⟨0⟩

/-- Issues one identity. There is always a next one, as the supply is taken not to be exhausted. -/
def issue (supply : Supply) : NodeId × Supply := (⟨supply.next⟩, ⟨supply.next + 1⟩)

/-- The identity that is issued is the next one of the supply. -/
@[simp] theorem issue_fst (supply : Supply) : supply.issue.1 = ⟨supply.next⟩ := rfl

/-- The supply that is left is one further on. -/
@[simp] theorem issue_snd_next (supply : Supply) : supply.issue.2.next = supply.next + 1 := rfl

end Supply

end BehaviorTree
