import BehaviorTree.Decimal.Whole

/-!
# Data in JSON

Data of no fixed type and the reading of its text. Of numbers, only whole ones without a
sign are told apart by value; of texts, those that are no sequence of characters (an escaped
half of a surrogate pair) are kept as such, since they are a fault only where they are used.
-/

namespace BehaviorTree

/-- Data of no fixed type. -/
inductive Json where
  | null
  | truth (value : Bool)
  | natural (value : Nat)
  /-- A number with a sign, a fraction or an exponent. -/
  | otherNumber
  /-- A text, or nothing if its escapes stand for no sequence of characters. -/
  | text (value : Option String)
  | array (items : List Json)
  | object (fields : List (Option String × Json))
  deriving Inhabited

namespace Json

/-- Whether a character may stand between the parts of a text. -/
def isBlank (c : Char) : Bool := c == ' ' || c == '\n' || c == '\t' || c == '\r'

/-- Moves over blanks. -/
def skipBlanks (cs : List Char) : List Char := cs.dropWhile isBlank

/-- Reads the given characters. -/
def expect? : List Char → List Char → Option (List Char)
  | [], cs => some cs
  | a :: as, c :: cs => if a = c then expect? as cs else none
  | _ :: _, [] => none

/-- Moves over one or more digits. -/
def digits? (cs : List Char) : Option (List Char × List Char) :=
  let run := cs.takeWhile Decimal.isDigit
  if run.isEmpty then none else some (run, cs.dropWhile Decimal.isDigit)

/-- Reads a whole number without a sign: a zero, or digits that do not start with one. -/
def whole? (cs : List Char) : Option (Nat × List Char) := do
  let (run, rest) ← digits? cs
  if 1 < run.length && run.head? == some '0' then none
  let value ← Decimal.natural? 10 run
  return (value, rest)

/-- Moves over a fraction, if one comes next. -/
def fraction? : List Char → Option (Bool × List Char)
  | '.' :: cs => (digits? cs).map fun (_, rest) => (true, rest)
  | cs => some (false, cs)

/-- Moves over an exponent, if one comes next. -/
def exponent? : List Char → Option (Bool × List Char)
  | c :: cs =>
      if c = 'e' ∨ c = 'E' then
        let body := match cs with
          | '+' :: rest | '-' :: rest => rest
          | rest => rest
        (digits? body).map fun (_, rest) => (true, rest)
      else some (false, c :: cs)
  | [] => some (false, [])

/-- Reads a number. -/
def number? (cs : List Char) : Option (Json × List Char) := do
  let (isNegative, body) := match cs with
    | '-' :: rest => (true, rest)
    | rest => (false, rest)
  let (value, rest) ← whole? body
  let (hasFraction, rest) ← fraction? rest
  let (hasExponent, rest) ← exponent? rest
  return (if isNegative || hasFraction || hasExponent then otherNumber else natural value, rest)

/-- The character of a simple escape. -/
def escaped? : Char → Option Char
  | '"' => some '"'
  | '\\' => some '\\'
  | '/' => some '/'
  | 'b' => some '\x08'
  | 'f' => some '\x0c'
  | 'n' => some '\n'
  | 'r' => some '\r'
  | 't' => some '\t'
  | _ => none

/-- Reads a unit of four hexadecimal digits. -/
def unit? : List Char → Option (Nat × List Char)
  | a :: b :: c :: d :: rest => (Decimal.natural? 16 [a, b, c, d]).map fun value => (value, rest)
  | _ => none

/-- A piece of a text: a character, or a unit that is half of a pair. -/
inductive Piece where
  | char (c : Char)
  | high (unit : Nat)
  | low (unit : Nat)
  deriving DecidableEq

/-- The piece that a unit stands for. -/
def Piece.ofUnit (unit : Nat) : Piece :=
  if 0xD800 ≤ unit ∧ unit < 0xDC00 then .high unit
  else if 0xDC00 ≤ unit ∧ unit < 0xE000 then .low unit
  else .char (Char.ofNat unit)

/-- Puts the halves of pairs together. Fails at a half without the other one. -/
def join? : List Piece → Option (List Char)
  | [] => some []
  | .char c :: rest => (join? rest).map (c :: ·)
  | .high h :: .low l :: rest =>
      (join? rest).map (Char.ofNat (0x10000 + (h - 0xD800) * 0x400 + (l - 0xDC00)) :: ·)
  | .high _ :: _ | .low _ :: _ => none

/-- Reads the pieces of a text up to the closing quote. -/
def pieces? : Nat → List Char → Option (List Piece × List Char)
  | 0, _ => none
  | _ + 1, [] => none
  | fuel + 1, c :: rest =>
      if c = '"' then some ([], rest)
      else if c = '\\' then
        match rest with
        | [] => none
        | 'u' :: digits => do
            let (unit, rest) ← unit? digits
            let (more, rest) ← pieces? fuel rest
            return (Piece.ofUnit unit :: more, rest)
        | e :: rest => do
            let value ← escaped? e
            let (more, rest) ← pieces? fuel rest
            return (.char value :: more, rest)
      else if c.toNat < 0x20 then none
      else (pieces? fuel rest).map fun (more, rest) => (.char c :: more, rest)

/-- Reads a text after its opening quote. -/
def text? (cs : List Char) : Option (Option String × List Char) :=
  (pieces? (cs.length + 1) cs).map fun (pieces, rest) => ((join? pieces).map String.ofList, rest)

mutual

/-- Reads a value after blanks, in at most so many steps. -/
def read? : Nat → List Char → Option (Json × List Char)
  | 0, _ => none
  | fuel + 1, cs =>
      match skipBlanks cs with
      | [] => none
      | c :: rest =>
          if c = '"' then (text? rest).map fun (value, rest) => (text value, rest)
          else if c = '[' then
            match skipBlanks rest with
            | ']' :: rest => some (array [], rest)
            | rest => (items? fuel rest).map fun (items, rest) => (array items, rest)
          else if c = '\x7b' then
            match skipBlanks rest with
            | '\x7d' :: rest => some (object [], rest)
            | rest => (fields? fuel rest).map fun (fields, rest) => (object fields, rest)
          else if c = 'n' then (expect? "ull".toList rest).map fun rest => (null, rest)
          else if c = 't' then (expect? "rue".toList rest).map fun rest => (truth true, rest)
          else if c = 'f' then (expect? "alse".toList rest).map fun rest => (truth false, rest)
          else number? (c :: rest)

/-- Reads one or more items up to the closing bracket. -/
def items? : Nat → List Char → Option (List Json × List Char)
  | 0, _ => none
  | fuel + 1, cs => do
      let (item, rest) ← read? fuel cs
      match skipBlanks rest with
      | ']' :: rest => return ([item], rest)
      | ',' :: rest =>
          let (items, rest) ← items? fuel rest
          return (item :: items, rest)
      | _ => none

/-- Reads one or more fields up to the closing brace. -/
def fields? : Nat → List Char → Option (List (Option String × Json) × List Char)
  | 0, _ => none
  | fuel + 1, cs =>
      match skipBlanks cs with
      | '"' :: rest => do
          let (name, rest) ← text? rest
          match skipBlanks rest with
          | ':' :: rest =>
              let (value, rest) ← read? fuel rest
              match skipBlanks rest with
              | '\x7d' :: rest => return ([(name, value)], rest)
              | ',' :: rest =>
                  let (fields, rest) ← fields? fuel rest
                  return ((name, value) :: fields, rest)
              | _ => none
          | _ => none
      | _ => none

end

/-- Reads a whole text. -/
def ofText? (source : String) : Option Json := do
  let cs := source.toList
  let (value, rest) ← read? (2 * cs.length + 2) cs
  if (skipBlanks rest).isEmpty then return value else none

end Json

end BehaviorTree
