import BehaviorTree.Yaml.Scalar
import BehaviorTree.Yaml.Tag

/-!
# Tokens

A text as a sequence of tokens. Indentation becomes tokens of its own: a block structure
starts where a line goes deeper and ends where a line goes back. Whether a scalar is a key
shows only at the colon after it, so places where a key may have started are remembered and
the token is put in afterwards.
-/

namespace BehaviorTree.Yaml

/-- The smallest units of structure. -/
inductive Token where
  | version (major minor : Nat)
  | handle (name : String) (leader : TagText)
  | documentStart
  | documentEnd
  | blockSequenceStart
  | blockMappingStart
  | blockEnd
  | flowSequenceStart
  | flowSequenceEnd
  | flowMappingStart
  | flowMappingEnd
  | blockEntry
  | flowEntry
  | key
  | value
  | aliasOf (name : String)
  | anchor (name : String)
  | tag (handle : String) (suffix : TagText)
  | scalar (style : ScalarStyle) (text : String)
  | streamEnd
  deriving DecidableEq, Repr

namespace Scanner

/-- A place where a key may have started. -/
structure KeyPlace where
  /-- Whether nothing but a key can stand there. -/
  required : Bool
  /-- The number of tokens before it. -/
  token : Nat
  index : Nat
  line : Nat
  column : Nat

end Scanner

/-- The state of splitting a text into tokens. -/
structure Scanner where
  cursor : Cursor
  tokens : Array Token := Array.empty
  /-- The columns of the open block structures, the innermost first. -/
  indents : List Nat := []
  /-- Whether a key may start here. -/
  keyAllowed : Bool := true
  /-- Where a key of the innermost structure may have started. -/
  place : Option Scanner.KeyPlace := none
  /-- The same for the structures around each open bracket. -/
  outer : List (Option Scanner.KeyPlace) := []

namespace Scanner

/-- Whether the scanner is within brackets. -/
def inFlow (s : Scanner) : Bool := !s.outer.isEmpty

/-- The column of the innermost block structure. -/
def indent? (s : Scanner) : Option Nat := s.indents.head?

/-- The column that the lines of a scalar have to reach. -/
def scalarIndent (s : Scanner) : Nat :=
  match s.indent? with
  | none => 0
  | some column => column + 1

/-- Whether the innermost block structure is left of a column. -/
def isRightOfIndent (s : Scanner) (column : Nat) : Bool :=
  s.indent?.all fun indent => indent < column

def emit (s : Scanner) (token : Token) : Scanner := { s with tokens := s.tokens.push token }

/-- Puts a token in before others. -/
def insert (s : Scanner) (position : Nat) (token : Token) : Scanner :=
  { s with tokens := (s.tokens.extract 0 position).push token ++
    s.tokens.extract position s.tokens.size }

def move (s : Scanner) (cursor : Cursor) : Scanner := { s with cursor }

/-- Ends the block structures to the right of a column, or all of them. -/
def unroll (s : Scanner) (column : Option Nat) : Scanner :=
  if s.inFlow then s
  else
    let ended := s.indents.takeWhile fun indent => column.all fun column => column < indent
    { s with
      indents := s.indents.drop ended.length
      tokens := s.tokens ++ (ended.map fun _ => Token.blockEnd).toArray }

/-- Starts a block structure at a column, if it lies deeper than the current one. -/
def roll (s : Scanner) (column : Nat) (position : Nat) (token : Token) : Scanner :=
  if s.inFlow || !s.isRightOfIndent column then s
  else { s.insert position token with indents := column :: s.indents }

/-- Gives up the place of a key; fails if a key had to stand there. -/
def dropPlace? (s : Scanner) : Option Scanner :=
  if s.place.any KeyPlace.required then none else some { s with place := none }

/-- Remembers that a key may start here. -/
def savePlace? (s : Scanner) : Option Scanner :=
  if s.keyAllowed then do
    let cursor := s.cursor
    let s ← s.dropPlace?
    let required := !s.inFlow && s.indent? == some cursor.column
    return { s with
      place := some ⟨required, s.tokens.size, cursor.index, cursor.line, cursor.column⟩ }
  else some s

/-- Whether a place cannot start a key any more: a key lies on one line and has at most 1024
bytes. -/
def isStale (cursor : Cursor) (place : KeyPlace) : Bool :=
  place.line < cursor.line || place.index + 1024 < cursor.index

/-- Gives up all places that are stale; fails if a key had to stand at one. -/
def dropStale? (s : Scanner) : Option Scanner :=
  let check (place : Option KeyPlace) : Option (Option KeyPlace) :=
    match place with
    | none => some none
    | some place =>
        if isStale s.cursor place then (if place.required then none else some none)
        else some (some place)
  do
    let place ← check s.place
    let outer ← s.outer.mapM check
    return { s with place, outer }

/-- Moves to the next token, over white space, comments and ends of lines. A byte order mark
may start a line, where it takes a column. A tab is white space only where no key may start. -/
def toNextToken : Nat → Scanner → Scanner
  | 0, s => s
  | fuel + 1, s =>
      let cursor :=
        if s.cursor.column == 0 && s.cursor.isAt '\ufeff' then s.cursor.skip 1 else s.cursor
      let cursor := cursor.skipWhile fun c => c == ' ' || (c == '\t' && (s.inFlow || !s.keyAllowed))
      let cursor := if cursor.isAt '#' then cursor.skipWhile (!isBreak ·) else cursor
      match cursor.readBreak? with
      | some (_, after) =>
          toNextToken fuel { s with cursor := after, keyAllowed := s.keyAllowed || !s.inFlow }
      | none => s.move cursor

/-- Reads a mark at the start of a document or directive line. -/
def fetchMark? (s : Scanner) (token : Token) : Option Scanner := do
  let s ← (s.unroll none).dropPlace?
  return ({ s with keyAllowed := false }.emit token).move (s.cursor.skip 3)

/-- Reads a number of at most nine digits. -/
def versionNumber? (cursor : Cursor) : Option (Nat × Cursor) :=
  let (digits, after) := cursor.span Decimal.isDigit
  if digits.isEmpty || 9 < digits.length then none
  else (Decimal.natural? 10 digits).map fun value => (value, after)

/-- Reads a handle of tags: an exclamation mark, word characters, and mostly another mark. -/
def handle? (isDirective : Bool) (cursor : Cursor) : Option (List Char × Cursor) :=
  if !cursor.isAt '!' then none
  else
    let (word, after) := (cursor.skip 1).span isWord
    if after.isAt '!' then some ('!' :: word ++ ['!'], after.skip 1)
    else if isDirective && !word.isEmpty then none
    else some ('!' :: word, after)

/-- Reads one escaped byte of a tag. -/
def escapedByte? : List Char → Option Nat
  | '%' :: a :: b :: _ => Decimal.natural? 16 [a, b]
  | _ => none

/-- The code point in a run of escaped bytes, and the number of bytes of its UTF-8 form. -/
def escapedCode? (cs : List Char) : Option (Nat × Nat) := do
  let first ← escapedByte? cs
  let further (i : Nat) : Option Nat :=
    (escapedByte? (cs.drop (3 * i))).bind fun b => if b / 64 = 2 then some (b % 64) else none
  if first < 0x80 then some (first, 1)
  else if first < 0xC0 then none
  else if first < 0xE0 then
    (further 1).map fun a => (first % 32 * 64 + a, 2)
  else if first < 0xF0 then
    (further 1).bind fun a => (further 2).map fun b => ((first % 16 * 64 + a) * 64 + b, 3)
  else if first < 0xF8 then
    (further 1).bind fun a => (further 2).bind fun b => (further 3).map fun c =>
      (((first % 8 * 64 + a) * 64 + b) * 64 + c, 4)
  else none

/-- Reads an escaped character of a tag. There is none if the bytes are not the shortest for
their code point or it is not that of a character. -/
def escapedChar? (cursor : Cursor) : Option (Option Char × Cursor) := do
  let (code, length) ← escapedCode? cursor.rest
  let c := (Scalar.ofCode? code).filter fun c => c.utf8Size = length
  return (c, cursor.skip (3 * length))

/-- Whether a character may stand in a tag. -/
def isTagChar (isVerbatim : Bool) (c : Char) : Bool :=
  isWord c || ";/?:@&=+$.!~*'()%".toList.contains c || (isVerbatim && ",[]".toList.contains c)

/-- Reads the characters of a tag. -/
def tagChars? (isVerbatim : Bool) : Nat → TagText → Cursor → Option (TagText × Cursor)
  | 0, _, _ => none
  | fuel + 1, text, cursor =>
      match cursor.peek with
      | none => some (text, cursor)
      | some c =>
          if !isTagChar isVerbatim c then some (text, cursor)
          else if c == '%' then do
            let (value, after) ← escapedChar? cursor
            tagChars? isVerbatim fuel (text ++ [value]) after
          else tagChars? isVerbatim fuel (text ++ [some c]) (cursor.skip 1)

/-- Reads the characters of a tag after those read before as a would-be handle. What follows
an escaped zero does not count. -/
def tagText? (isVerbatim : Bool) (before : List Char) (cursor : Cursor) :
    Option (TagText × Cursor) := do
  let (text, after) ← tagChars? isVerbatim (cursor.rest.length + 1) [] cursor
  if before.isEmpty && text.isEmpty then none
  return ((before.drop 1).map some ++ text.takeWhile (· ≠ some '\x00'), after)

/-- Reads the two numbers of a version. -/
def versionToken? (cursor : Cursor) : Option (Token × Cursor) := do
  let (major, cursor) ← versionNumber? cursor
  if !cursor.isAt '.' then none
  let (minor, cursor) ← versionNumber? (cursor.skip 1)
  return (.version major minor, cursor)

/-- Reads a handle and what it stands for. -/
def handleToken? (cursor : Cursor) : Option (Token × Cursor) := do
  let (handle, cursor) ← handle? true cursor
  if !cursor.peek.any isSpace then none
  let (leader, cursor) ← tagText? true [] (cursor.skipWhile isSpace)
  if !gapOrEnd cursor.peek then none
  return (.handle (String.ofList handle) leader, cursor)

/-- Reads a directive. -/
def fetchDirective? (s : Scanner) : Option Scanner := do
  let s ← (s.unroll none).dropPlace?
  let (name, cursor) := (s.cursor.skip 1).span isWord
  if !gapOrEnd cursor.peek then none
  let cursor := cursor.skipWhile isSpace
  let (token, cursor) ←
    if name = "YAML".toList then versionToken? cursor
    else if name = "TAG".toList then handleToken? cursor
    else none
  let cursor ← cursor.skipToBreak?
  return ({ s with keyAllowed := false }.emit token).move cursor

/-- Opens a bracket. -/
def fetchOpen? (s : Scanner) (token : Token) : Option Scanner := do
  let s ← s.savePlace?
  return ({ s with keyAllowed := true, place := none, outer := s.place :: s.outer }.emit token).move
    (s.cursor.skip 1)

/-- Closes a bracket. -/
def fetchClose? (s : Scanner) (token : Token) : Option Scanner := do
  let s ← s.dropPlace?
  let s := match s.outer with
    | [] => s
    | place :: outer => { s with place, outer }
  return ({ s with keyAllowed := false }.emit token).move (s.cursor.skip 1)

def fetchFlowEntry? (s : Scanner) : Option Scanner := do
  let s ← s.dropPlace?
  return ({ s with keyAllowed := true }.emit .flowEntry).move (s.cursor.skip 1)

/-- Starts a block structure right here, where a key or entry has to be allowed. -/
def rollHere? (s : Scanner) (token : Token) : Option Scanner :=
  if s.inFlow then some s
  else if s.keyAllowed then some (s.roll s.cursor.column s.tokens.size token)
  else none

def fetchBlockEntry? (s : Scanner) : Option Scanner := do
  let s ← s.rollHere? .blockSequenceStart
  let s ← s.dropPlace?
  return ({ s with keyAllowed := true }.emit .blockEntry).move (s.cursor.skip 1)

def fetchKey? (s : Scanner) : Option Scanner := do
  let s ← s.rollHere? .blockMappingStart
  let s ← s.dropPlace?
  return ({ s with keyAllowed := !s.inFlow }.emit .key).move (s.cursor.skip 1)

/-- Reads a colon. If a key may have started before, its token goes there. -/
def fetchValue? (s : Scanner) : Option Scanner := do
  let s ← match s.place with
    | some place =>
        let s := (s.insert place.token .key).roll place.column place.token .blockMappingStart
        some { s with place := none, keyAllowed := false }
    | none =>
        (s.rollHere? .blockMappingStart).map fun s => { s with keyAllowed := !s.inFlow }
  return (s.emit .value).move (s.cursor.skip 1)

/-- Reads the name of an anchor or alias. -/
def fetchAnchor? (s : Scanner) (token : String → Token) : Option Scanner := do
  let s ← s.savePlace?
  let (name, cursor) := (s.cursor.skip 1).span isWord
  if name.isEmpty then none
  if !cursor.peek.all fun c => isGap c || "?:,]\x7d%@`".toList.contains c then none
  return ({ s with keyAllowed := false }.emit (token (String.ofList name))).move cursor

/-- Reads a tag in angle brackets, which stands for itself. -/
def verbatimTag? (cursor : Cursor) : Option (Token × Cursor) := do
  let (text, cursor) ← tagText? true [] (cursor.skip 2)
  if !cursor.isAt '>' then none
  return (.tag "" text, cursor.skip 1)

/-- Reads a tag with a handle. A lone exclamation mark is a tag without a handle. -/
def handledTag? (cursor : Cursor) : Option (Token × Cursor) := do
  let (handle, cursor) ← handle? false cursor
  let isHandle := 2 ≤ handle.length && handle.getLast? == some '!'
  let (text, cursor) ← tagText? false (if isHandle then [] else handle) cursor
  let token : Token :=
    if isHandle then .tag (String.ofList handle) text
    else if text.isEmpty then .tag "" [some '!']
    else .tag "!" text
  return (token, cursor)

/-- Reads a tag. -/
def fetchTag? (s : Scanner) : Option Scanner := do
  let s ← s.savePlace?
  let (token, cursor) ←
    if s.cursor.peekAt 1 == some '<' then verbatimTag? s.cursor else handledTag? s.cursor
  if !gapOrEnd cursor.peek && !(s.inFlow && cursor.isAt ',') then none
  return ({ s with keyAllowed := false }.emit token).move cursor

def fetchBlockScalar? (s : Scanner) (isLiteral : Bool) : Option Scanner := do
  let s ← s.dropPlace?
  let (text, cursor) ← Scalar.block? isLiteral s.indent? s.cursor
  let style : ScalarStyle := if isLiteral then .literal else .folded
  return ({ s with keyAllowed := true }.emit (.scalar style (String.ofList text))).move cursor

def fetchQuoted? (s : Scanner) (single : Bool) : Option Scanner := do
  let s ← s.savePlace?
  let (text, cursor) ← Scalar.quoted? single s.cursor
  let style : ScalarStyle := if single then .singleQuoted else .doubleQuoted
  return ({ s with keyAllowed := false }.emit (.scalar style (String.ofList text))).move cursor

def fetchPlain? (s : Scanner) : Option Scanner := do
  let s ← s.savePlace?
  let (text, broken, cursor) ← Scalar.plain? s.inFlow s.scalarIndent s.cursor
  return ({ s with keyAllowed := broken }.emit (.scalar .plain (String.ofList text))).move cursor

/-- Ends the text, and with it every open block structure. -/
def fetchEnd? (s : Scanner) : Option Scanner := do
  let s ← (s.unroll none).dropPlace?
  return { s with keyAllowed := false }.emit .streamEnd

/-- Whether a plain scalar can start with a character. A tab that is not white space for lack
of a place where it could stand starts nothing. -/
def startsPlain (s : Scanner) (c : Char) (next : Option Char) : Bool :=
  (!isGap c && !"-?:,[]\x7b\x7d#&*!|>'\"%@`".toList.contains c) ||
    (c == '-' && !next.any isSpace) ||
    (!s.inFlow && (c == '?' || c == ':') && !gapOrEnd next)

/-- Reads the token at the cursor. -/
def fetch? (s : Scanner) : Option Scanner :=
  match s.cursor.rest with
  | [] => s.fetchEnd?
  | c :: _ =>
      let next := s.cursor.peekAt 1
      if s.cursor.column == 0 && c == '%' then s.fetchDirective?
      else if s.cursor.atMark '-' then s.fetchMark? .documentStart
      else if s.cursor.atMark '.' then s.fetchMark? .documentEnd
      else if c == '[' then s.fetchOpen? .flowSequenceStart
      else if c == '\x7b' then s.fetchOpen? .flowMappingStart
      else if c == ']' then s.fetchClose? .flowSequenceEnd
      else if c == '\x7d' then s.fetchClose? .flowMappingEnd
      else if c == ',' then s.fetchFlowEntry?
      else if c == '-' && gapOrEnd next then s.fetchBlockEntry?
      else if c == '?' && (s.inFlow || gapOrEnd next) then s.fetchKey?
      else if c == ':' && (s.inFlow || gapOrEnd next) then s.fetchValue?
      else if c == '*' then s.fetchAnchor? .aliasOf
      else if c == '&' then s.fetchAnchor? .anchor
      else if c == '!' then s.fetchTag?
      else if c == '|' && !s.inFlow then s.fetchBlockScalar? true
      else if c == '>' && !s.inFlow then s.fetchBlockScalar? false
      else if c == '\'' then s.fetchQuoted? true
      else if c == '"' then s.fetchQuoted? false
      else if s.startsPlain c next then s.fetchPlain?
      else none

/-- Reads tokens to the end of the text. -/
def run? : Nat → Scanner → Option (Array Token)
  | 0, _ => none
  | fuel + 1, s => do
      let s := toNextToken (s.cursor.rest.length + 1) s
      let s ← s.dropStale?
      let s := s.unroll (some s.cursor.column)
      if s.cursor.rest.isEmpty then return (← s.fetchEnd?).tokens
      else run? fuel (← s.fetch?)

end Scanner

/-- The tokens of a text, the end of the text included. -/
def Token.ofText? (text : String) : Option (List Token) :=
  let cs := text.toList
  if cs.all isAllowed then
    (Scanner.run? (cs.length + 2) { cursor := { rest := cs } }).map Array.toList
  else none

end BehaviorTree.Yaml
