/-!
# Reading positions

A cursor is a place in a text: what is still to be read, the number of bytes before it, and
the line and column of its first character. Columns matter because indentation carries structure.
-/

namespace BehaviorTree.Yaml

/-- Whether a character ends a line. -/
def isBreak (c : Char) : Bool :=
  c == '\n' || c == '\r' || c == '\u0085' || c == '\u2028' || c == '\u2029'

/-- Whether a character separates words within a line. -/
def isSpace (c : Char) : Bool := c == ' ' || c == '\t'

/-- Whether a character separates words. -/
def isGap (c : Char) : Bool := isSpace c || isBreak c

/-- Whether a character may stand in the name of an anchor or handle. -/
def isWord (c : Char) : Bool := c.isAlphanum || c == '_' || c == '-'

/-- Whether a character may stand in a document at all. -/
def isAllowed (c : Char) : Bool :=
  let code := c.toNat
  code == 0x9 || code == 0xA || code == 0xD || (0x20 ≤ code && code ≤ 0x7E) || code == 0x85 ||
    (0xA0 ≤ code && code ≤ 0xFFFD) || 0x10000 ≤ code

/-- Whether the text is over or a separator of words comes next. -/
def gapOrEnd (next : Option Char) : Bool := next.all isGap

/-- The number of bytes that some characters take in UTF-8. -/
def byteCount : List Char → Nat
  | [] => 0
  | c :: rest => c.utf8Size + byteCount rest

/-- A place in a text. -/
structure Cursor where
  rest : List Char
  /-- The number of bytes before this place. -/
  index : Nat := 0
  line : Nat := 0
  column : Nat := 0

namespace Cursor

/-- The next character. -/
def peek (cursor : Cursor) : Option Char := cursor.rest.head?

/-- The character some places further on. -/
def peekAt (cursor : Cursor) (offset : Nat) : Option Char := (cursor.rest.drop offset).head?

/-- Whether a character comes next. -/
def isAt (cursor : Cursor) (c : Char) : Bool := cursor.peek == some c

/-- Moves over characters of one line. -/
def skip (cursor : Cursor) (count : Nat) : Cursor :=
  { cursor with
    rest := cursor.rest.drop count
    index := cursor.index + byteCount (cursor.rest.take count)
    column := cursor.column + count }

/-- The longest run of characters with a property, and the place after it. The property must
exclude the ends of lines. -/
def span (cursor : Cursor) (property : Char → Bool) : List Char × Cursor :=
  let run := cursor.rest.takeWhile property
  (run, cursor.skip run.length)

/-- Moves over characters with a property. -/
def skipWhile (cursor : Cursor) (property : Char → Bool) : Cursor := (cursor.span property).2

/-- Reads the end of a line. All but the two separators of Unicode read as line feeds. -/
def readBreak? (cursor : Cursor) : Option (Char × Cursor) :=
  let after (c : Char) (count : Nat) : Option (Char × Cursor) :=
    some (c, {
      rest := cursor.rest.drop count
      index := cursor.index + byteCount (cursor.rest.take count)
      line := cursor.line + 1
      column := 0 })
  match cursor.rest with
  | '\r' :: '\n' :: _ => after '\n' 2
  | c :: _ =>
      if c == '\u2028' || c == '\u2029' then after c 1
      else if isBreak c then after '\n' 1
      else none
  | [] => none

/-- Moves over the end of a line, if one comes next. -/
def skipBreak (cursor : Cursor) : Cursor :=
  match cursor.readBreak? with
  | some (_, after) => after
  | none => cursor

/-- Whether a mark of three equal characters stands alone at the start of a line. -/
def atMark (cursor : Cursor) (c : Char) : Bool :=
  cursor.column == 0 && cursor.rest.take 3 == [c, c, c] && gapOrEnd (cursor.peekAt 3)

/-- Whether a document starts or ends here. -/
def atDocumentMark (cursor : Cursor) : Bool := cursor.atMark '-' || cursor.atMark '.'

/-- Moves over spaces and a comment to the end of the line; fails if something else comes. -/
def skipToBreak? (cursor : Cursor) : Option Cursor :=
  let cursor := cursor.skipWhile isSpace
  let cursor := if cursor.isAt '#' then cursor.skipWhile (!isBreak ·) else cursor
  if cursor.peek.all isBreak then some cursor.skipBreak else none

end Cursor

/-- White space between two pieces of a scalar that may run over several lines. -/
structure Gap where
  /-- Spaces, as long as no line has ended. -/
  spaces : List Char := []
  /-- Whether a line has ended. -/
  broken : Bool := false
  /-- The first end of a line. -/
  first : List Char := []
  /-- Further ends of lines. -/
  later : List Char := []

namespace Gap

/-- What white space amounts to: a single end of a line is a space, several lose the first,
and spaces within a line stay. -/
def fold (gap : Gap) : List Char :=
  if gap.broken then
    if gap.first = ['\n'] then (if gap.later.isEmpty then [' '] else gap.later)
    else gap.first ++ gap.later
  else gap.spaces

/-- Adds the end of a line. -/
def addBreak (gap : Gap) (c : Char) : Gap :=
  if gap.broken then { gap with later := gap.later ++ [c] }
  else { spaces := [], broken := true, first := [c] }

/-- Adds a space within a line; at the start of a line it does not count. -/
def addSpace (gap : Gap) (c : Char) : Gap :=
  if gap.broken then gap else { gap with spaces := gap.spaces ++ [c] }

/-- Reads white space onto a gap. Fails at a tab that comes before the column `tabsFrom` in a
later line. -/
def read? (tabsFrom : Nat) : Nat → Gap → Cursor → Option (Gap × Cursor)
  | 0, gap, cursor => some (gap, cursor)
  | fuel + 1, gap, cursor =>
      match cursor.peek with
      | none => some (gap, cursor)
      | some c =>
          if isSpace c then
            if gap.broken && c == '\t' && cursor.column < tabsFrom then none
            else read? tabsFrom fuel (gap.addSpace c) (cursor.skip 1)
          else match cursor.readBreak? with
            | some (b, after) => read? tabsFrom fuel (gap.addBreak b) after
            | none => some (gap, cursor)

end Gap

end BehaviorTree.Yaml
