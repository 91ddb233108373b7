/-!
# Diagnostics

What the engine tells a developer who watches it: a severity, a message and named data.
-/

namespace BehaviorTree

/-- How much a diagnostic matters, the gravest first. -/
inductive Severity where
  | error
  | warn
  | info
  | debug
  | trace
  deriving DecidableEq, Repr

namespace Severity

/-- The written name of a severity. -/
def name : Severity → String
  | error => "ERROR"
  | warn => "WARN"
  | info => "INFO"
  | debug => "DEBUG"
  | trace => "TRACE"

/-- The graver a severity, the smaller its rank. -/
def rank : Severity → Nat
  | error => 0
  | warn => 1
  | info => 2
  | debug => 3
  | trace => 4

/-- Whether one severity is at least as grave as another. -/
def reaches (severity least : Severity) : Bool := severity.rank ≤ least.rank

/-- The severity of a written name. -/
def ofName? (text : String) : Option Severity :=
  [error, warn, info, debug, trace].find? fun severity => severity.name == text

end Severity

/-- A named datum of a diagnostic. -/
inductive Datum where
  | text (value : String)
  | number (value : Nat)
  deriving DecidableEq, Repr

/-- One message about what the engine did. -/
structure Diagnostic where
  severity : Severity
  message : String
  fields : List (String × Datum)
  deriving DecidableEq, Repr

/-- A value together with the diagnostics of computing it, oldest first. -/
structure Reported (α : Type u) where
  value : α
  diagnostics : List Diagnostic := []

end BehaviorTree
