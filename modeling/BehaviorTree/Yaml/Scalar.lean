import BehaviorTree.Yaml.Cursor
import BehaviorTree.Decimal.Whole

/-!
# Scalars in text

How a scalar is read in each of its styles: plain, in single or double quotes, and as a
block of lines, literal or folded. Each reader starts at the first character of the scalar
and gives its text and the place after it.
-/

namespace BehaviorTree.Yaml

/-- The way a scalar is written. -/
inductive ScalarStyle where
  | plain
  | singleQuoted
  | doubleQuoted
  | literal
  | folded
  deriving DecidableEq, Repr

namespace Scalar

/-- Reads a run of a plain scalar up to white space or an indicator that ends it. Within
brackets a colon right before an indicator is an error. -/
def plainRun? (inFlow : Bool) : List Char → Option (List Char)
  | [] => some []
  | c :: rest =>
      let next := rest.head?
      let isIndicator (c : Char) : Bool :=
        c == ',' || c == '[' || c == ']' || c == '\x7b' || c == '\x7d'
      if isGap c then some []
      else if inFlow && c == ':' && next.any fun n => isIndicator n || n == '?' then none
      else if c == ':' && gapOrEnd next then some []
      else if inFlow && isIndicator c then some []
      else (plainRun? inFlow rest).map (c :: ·)

/-- Reads the runs of a plain scalar. The answer also tells whether the white space that was
passed over at the end has the end of a line in it. -/
def plainRuns? (inFlow : Bool) (indent : Nat) :
    Nat → List Char → Gap → Cursor → Option (List Char × Bool × Cursor)
  | 0, _, _, _ => none
  | fuel + 1, text, gap, cursor =>
      if cursor.atDocumentMark || cursor.isAt '#' then some (text, gap.broken, cursor)
      else do
        let run ← plainRun? inFlow cursor.rest
        let after := cursor.skip run.length
        let (text, gap) := if run.isEmpty then (text, gap) else (text ++ gap.fold ++ run, {})
        if !after.peek.any isGap then return (text, gap.broken, after)
        let (gap, after) ← gap.read? indent (after.rest.length + 1) after
        if !inFlow && after.column < indent then return (text, gap.broken, after)
        plainRuns? inFlow indent fuel text gap after

/-- Reads a plain scalar whose later lines are indented by at least `indent` columns. -/
def plain? (inFlow : Bool) (indent : Nat) (cursor : Cursor) :
    Option (List Char × Bool × Cursor) :=
  plainRuns? inFlow indent (cursor.rest.length + 1) [] {} cursor

/-- The character of a simple escape. -/
def escaped? : Char → Option Char
  | '0' => some '\x00'
  | 'a' => some '\x07'
  | 'b' => some '\x08'
  | 't' | '\t' => some '\t'
  | 'n' => some '\n'
  | 'v' => some '\x0b'
  | 'f' => some '\x0c'
  | 'r' => some '\r'
  | 'e' => some '\x1b'
  | ' ' => some ' '
  | '"' => some '"'
  | '/' => some '/'
  | '\\' => some '\\'
  | 'N' => some '\u0085'
  | '_' => some '\u00a0'
  | 'L' => some '\u2028'
  | 'P' => some '\u2029'
  | _ => none

/-- The number of hexadecimal digits of a numeric escape. -/
def escapeLength? : Char → Option Nat
  | 'x' => some 2
  | 'u' => some 4
  | 'U' => some 8
  | _ => none

/-- The character of a code point, unless it is out of range or a surrogate. -/
def ofCode? (code : Nat) : Option Char :=
  if code < 0xD800 ∨ 0xDFFF < code ∧ code < 0x110000 then some (Char.ofNat code) else none

/-- Reads a numeric escape of a number of digits. -/
def numericEscape? (length : Nat) (digits : List Char) : Option Char := do
  let digits := digits.take length
  if digits.length ≠ length then none
  let code ← Decimal.natural? 16 digits
  ofCode? code

/-- A run of a quoted scalar. -/
structure QuotedRun where
  text : List Char
  /-- Whether the run ended with an escaped end of a line. -/
  escapedBreak : Bool := false
  after : Cursor

/-- Reads a run of a quoted scalar up to white space, the closing quote, or an escaped end of
a line. -/
def quotedRun? (single : Bool) : Nat → List Char → Cursor → Option QuotedRun
  | 0, _, _ => none
  | fuel + 1, text, cursor =>
      match cursor.rest with
      | [] => some { text, after := cursor }
      | c :: rest =>
          if isGap c then some { text, after := cursor }
          else if single then
            if c == '\'' then
              if rest.head? == some '\'' then
                quotedRun? single fuel (text ++ ['\'']) (cursor.skip 2)
              else some { text, after := cursor }
            else quotedRun? single fuel (text ++ [c]) (cursor.skip 1)
          else if c == '"' then some { text, after := cursor }
          else if c == '\\' then
            match rest with
            | [] => none
            | e :: digits =>
                if isBreak e then
                  some { text, escapedBreak := true, after := (cursor.skip 1).skipBreak }
                else match escaped? e with
                  | some value => quotedRun? single fuel (text ++ [value]) (cursor.skip 2)
                  | none => do
                      let length ← escapeLength? e
                      let value ← numericEscape? length digits
                      quotedRun? single fuel (text ++ [value]) (cursor.skip (2 + length))
          else quotedRun? single fuel (text ++ [c]) (cursor.skip 1)

/-- Reads the runs of a quoted scalar up to the closing quote. -/
def quotedRuns? (single : Bool) : Nat → List Char → Cursor → Option (List Char × Cursor)
  | 0, _, _ => none
  | fuel + 1, text, cursor =>
      if cursor.atDocumentMark || cursor.rest.isEmpty then none
      else do
        let run ← quotedRun? single (cursor.rest.length + 1) [] cursor
        let text := text ++ run.text
        if run.after.isAt (if single then '\'' else '"') then return (text, run.after.skip 1)
        let gap : Gap := { broken := run.escapedBreak }
        let (gap, after) ← gap.read? 0 (run.after.rest.length + 1) run.after
        quotedRuns? single fuel (text ++ gap.fold) after

/-- Reads a quoted scalar. -/
def quoted? (single : Bool) (cursor : Cursor) : Option (List Char × Cursor) :=
  quotedRuns? single (cursor.rest.length + 1) [] (cursor.skip 1)

/-- What is kept of the ends of lines at the end of a block. -/
inductive Chomping where
  /-- None of them. -/
  | strip
  /-- One of them. -/
  | clip
  /-- All of them. -/
  | keep
  deriving DecidableEq

/-- Reads the indicators of a block: chomping and indentation, in either order. -/
def blockHeader? (cursor : Cursor) : Option (Chomping × Nat × Cursor) :=
  let chomping (c : Option Char) : Option Chomping :=
    if c == some '+' then some .keep else if c == some '-' then some .strip else none
  let digit (c : Option Char) : Option Nat :=
    c.bind fun c => if Decimal.isDigit c then some (c.toNat - 48) else none
  match chomping cursor.peek, digit cursor.peek with
  | some how, _ =>
      match digit (cursor.peekAt 1) with
      | some 0 => none
      | some width => some (how, width, cursor.skip 2)
      | none => some (how, 0, cursor.skip 1)
  | none, some 0 => none
  | none, some width =>
      match chomping (cursor.peekAt 1) with
      | some how => some (how, width, cursor.skip 2)
      | none => some (.clip, width, cursor.skip 1)
  | none, none => some (.clip, 0, cursor)

/-- Reads indentation and empty lines. An indentation of zero is still to be found out; then
the deepest one seen is answered. Fails at a tab in the indentation. -/
def blockBreaks? (indent : Nat) :
    Nat → Nat → List Char → Cursor → Option (Nat × List Char × Cursor)
  | 0, _, _, _ => none
  | fuel + 1, deepest, breaks, cursor =>
      let spaces := (cursor.rest.takeWhile (· == ' ')).length
      let cursor := cursor.skip (if indent = 0 then spaces else min spaces (indent - cursor.column))
      let deepest := max deepest cursor.column
      if (indent = 0 || cursor.column < indent) && cursor.isAt '\t' then none
      else match cursor.readBreak? with
        | none => some (deepest, breaks, cursor)
        | some (b, after) => blockBreaks? indent fuel deepest (breaks ++ [b]) after

/-- Reads the lines of a block at an indentation. `lead` is the end of the line before, and
`spaced` tells whether that line began with a space. The answer has the text without the
ends of lines at its end, and those. -/
def blockLines? (isLiteral : Bool) (indent : Nat) :
    Nat → List Char → List Char → List Char → Bool → Cursor →
      Option (List Char × List Char × List Char × Cursor)
  | 0, _, _, _, _, _ => none
  | fuel + 1, text, lead, breaks, spaced, cursor =>
      if cursor.column ≠ indent ∨ cursor.rest.isEmpty then some (text, lead, breaks, cursor)
      else do
        let startsSpaced := cursor.peek.any isSpace
        let text :=
          if !isLiteral && lead == ['\n'] && !spaced && !startsSpaced then
            text ++ (if breaks.isEmpty then [' '] else []) ++ breaks
          else text ++ lead ++ breaks
        let (line, after) := cursor.span (!isBreak ·)
        let (lead, after) := match after.readBreak? with
          | some (b, after) => ([b], after)
          | none => ([], after)
        let (_, breaks, after) ← blockBreaks? indent (after.rest.length + 1) 0 [] after
        blockLines? isLiteral indent fuel (text ++ line) lead breaks startsSpaced after

/-- Reads a block scalar within a structure that is indented by `parent` columns, or by none
if there is no such structure. -/
def block? (isLiteral : Bool) (parent : Option Nat) (cursor : Cursor) :
    Option (List Char × Cursor) := do
  let (chomping, width, cursor) ← blockHeader? (cursor.skip 1)
  let cursor ← cursor.skipToBreak?
  let given := if width = 0 then 0 else parent.getD 0 + width
  let (deepest, breaks, cursor) ← blockBreaks? given (cursor.rest.length + 1) 0 [] cursor
  let least := match parent with
    | none => 1
    | some column => column + 1
  let indent := if width = 0 then max deepest least else given
  let (text, lead, breaks, cursor) ←
    blockLines? isLiteral indent (cursor.rest.length + 1) [] [] breaks false cursor
  return (match chomping with
    | .strip => text
    | .clip => text ++ lead
    | .keep => text ++ lead ++ breaks, cursor)

end Scalar

end BehaviorTree.Yaml
