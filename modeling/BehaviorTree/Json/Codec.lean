import BehaviorTree.Json.Text
import BehaviorTree.Trace

/-!
# Statuses, identities and traces in JSON

A status is its name, an identity its number, and a trace an object of its events. Written
texts have no blanks. In reading, an object may have its fields in any order and more fields
than needed, and may be given as the array of its fields; a field that is missing or occurs
twice is a fault.
-/

namespace BehaviorTree

namespace Json

/-- Reads a whole number below a bound. -/
def below? (bound : Nat) : Json → Option Nat
  | natural value => if value < bound then some value else none
  | _ => none

/-- Reads an array. -/
def arrayOf? {α : Type} (read : Json → Option α) : Json → Option (List α)
  | array items => items.mapM read
  | _ => none

/-- The fields of an object by name, if all names are texts and no known one is repeated. -/
def fieldsOf? (known : List String) : List (Option String × Json) → Option (List (String × Json))
  | [] => some []
  | (none, _) :: _ => none
  | (some name, value) :: rest => do
      let fields ← fieldsOf? known rest
      if known.contains name then
        if (fields.lookup name).isSome then none else return (name, value) :: fields
      else return fields

/-- The values of known fields, out of an object or out of an array in their order. -/
def record? (known : List String) : Json → Option (List Json)
  | object fields => do
      let fields ← fieldsOf? known fields
      known.mapM fun name => fields.lookup name
  | array items => if items.length = known.length then some items else none
  | _ => none

end Json

/-- Reads a status: its name, or an object with the name as its one field, set to null. -/
def Status.ofJson? : Json → Option Status
  | .text (some name) => Status.ofName? name
  | .object [(some name, .null)] => Status.ofName? name
  | _ => none

/-- Reads an identity. -/
def NodeId.ofJson? (json : Json) : Option NodeId := (json.below? NodeId.bound).map NodeId.mk

/-- Reads the identity of a zone. -/
def ZoneId.ofJson? (json : Json) : Option ZoneId := (json.below? ZoneId.bound).map ZoneId.mk

namespace TraceEvent

/-- Reads an event. -/
def ofJson? (json : Json) : Option TraceEvent := do
  match ← json.record? ["tick", "node", "status"] with
  | [tick, node, status] =>
      return ⟨← tick.below? (Nat.pow 2 64), ← NodeId.ofJson? node, ← Status.ofJson? status⟩
  | _ => none

/-- Writes an event. -/
def toJson (event : TraceEvent) : String :=
  "\x7b\"tick\":" ++ toString event.tick ++ ",\"node\":" ++ toString event.node.raw ++
    ",\"status\":\"" ++ event.status.name ++ "\"\x7d"

end TraceEvent

namespace TraceLog

/-- Reads a trace. -/
def ofJson? (json : Json) : Option TraceLog := do
  match ← json.record? ["events"] with
  | [events] => (Json.arrayOf? TraceEvent.ofJson? events).map TraceLog.mk
  | _ => none

/-- Reads a trace out of a text. -/
def parse? (text : String) : Option TraceLog := (Json.ofText? text).bind ofJson?

/-- Writes a trace. -/
def toJson (log : TraceLog) : String :=
  "\x7b\"events\":[" ++ ",".intercalate (log.events.map TraceEvent.toJson) ++ "]\x7d"

end TraceLog

end BehaviorTree
