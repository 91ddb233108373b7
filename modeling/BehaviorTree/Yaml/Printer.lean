import BehaviorTree.Yaml.Value
import BehaviorTree.Text.Blank

/-!
# Printing values

The block form of a value: entries on lines of their own, two columns deeper for each
structure, sequences in a mapping not deeper than their key. Scalars are plain where that
reads back as the same text, and quoted or in a literal block otherwise.
-/

namespace BehaviorTree.Yaml

/-- A text being written. -/
structure Page where
  /-- The characters so far, the last one first. -/
  written : List Char := []
  column : Nat := 0
  /-- Whether a separating space has just been written. -/
  spaced : Bool := true
  /-- Whether the line has nothing but indentation so far. -/
  indenting : Bool := true

namespace Page

def put (page : Page) (c : Char) : Page :=
  { page with written := c :: page.written, column := page.column + 1 }

def putAll (page : Page) (cs : List Char) : Page := cs.foldl put page

/-- Ends the line. -/
def putBreak (page : Page) (c : Char) : Page :=
  { page with written := c :: page.written, column := 0 }

/-- Goes to a column at the start of a line, on a new line if need be. -/
def indent (page : Page) (column : Nat) : Page :=
  let page :=
    if !page.indenting || column < page.column || (page.column = column && !page.spaced) then
      page.putBreak '\n'
    else page
  { page.putAll (List.replicate (column - page.column) ' ') with spaced := true, indenting := true }

/-- Separates what follows from what stands before. -/
def separate (page : Page) : Page := if page.spaced then page else page.put ' '

/-- Writes an indicator after a separating space. -/
def mark (page : Page) (cs : List Char) (spaced keepsIndent : Bool) : Page :=
  { page.separate.putAll cs with spaced, indenting := page.indenting && keepsIndent }

/-- Writes an indicator right behind what stands before. -/
def markBehind (page : Page) (cs : List Char) : Page :=
  { page.putAll cs with spaced := false, indenting := false }

/-- What has been written. -/
def text (page : Page) : String := String.ofList page.written.reverse

end Page

namespace Printer

/-- Characters that are written as they are. -/
def isShown (c : Char) : Bool :=
  let code := c.toNat
  code == 0x0A || (0x20 ≤ code && code ≤ 0x7E) ||
    (0xA0 ≤ code && code ≤ 0xFFFD && code ≠ 0xFEFF) || 0x10000 ≤ code

/-- The styles in which a text can be written, and whether it has several lines. -/
structure Allowed where
  plain : Bool
  single : Bool
  block : Bool
  multiline : Bool

/-- Whether some neighbours in a text have two properties. -/
def anyPair (first second : Char → Bool) (cs : List Char) : Bool :=
  (cs.zip (cs.drop 1)).any fun (a, b) => first a && second b

/-- Whether the first character of a text would be taken for an indicator. -/
def startsAsIndicator (cs : List Char) : Bool :=
  cs.take 3 == ['-', '-', '-'] || cs.take 3 == ['.', '.', '.'] ||
    match cs with
    | [] => false
    | c :: rest =>
        "#,[]\x7b\x7d&*!|>'\"%@`".toList.contains c ||
          ((c == '?' || c == ':' || c == '-') && gapOrEnd rest.head?)

/-- Whether a colon or a hash sign further on would end a plain scalar. -/
def hasIndicator : List Char → Bool
  | [] => false
  | [_] => false
  | before :: c :: rest =>
      (c == ':' && gapOrEnd rest.head?) || (c == '#' && isGap before) || hasIndicator (c :: rest)

/-- Which styles a text allows. -/
def allowed (cs : List Char) : Allowed :=
  if cs.isEmpty then ⟨true, true, false, false⟩
  else
    let isBlank (c : Char) : Bool := c == ' '
    let endsIn (property : Char → Bool) : Bool := cs.getLast?.any property
    let startsIn (property : Char → Bool) : Bool := cs.head?.any property
    let multiline := cs.any isBreak
    let special := anyPair isBlank isBreak cs || !cs.all isShown
    let breakSpace := anyPair isBreak isBlank cs
    let outer := startsIn isBlank || startsIn isBreak || endsIn isBlank || endsIn isBreak
    { plain :=
        !(outer || breakSpace || special || multiline || startsAsIndicator cs || hasIndicator cs)
      single := !(breakSpace || special)
      block := !(endsIn isBlank || special)
      multiline }

/-- A scalar to be written: its text and the style asked for. -/
structure Ink where
  text : List Char
  style : ScalarStyle

/-- How a text is written: lines in a literal block, and quoted where it would be taken for
something else. -/
def inkOfText (text : String) : Ink :=
  let cs := text.toList
  let style : ScalarStyle :=
    if cs.contains '\n' then .literal
    else if Plain.meaning text ≠ .text || Plain.isDigitsOnly cs then .singleQuoted
    else .plain
  ⟨cs, style⟩

/-- The scalar of a value that is not a structure. -/
def ink? : Value → Option Ink
  | .null => some ⟨"null".toList, .plain⟩
  | .truth value => some ⟨(if value then "true" else "false").toList, .plain⟩
  | .whole value => some ⟨(toString value).toList, .plain⟩
  | .fraction bits => some ⟨(Value.fractionText bits).toList, .plain⟩
  | .text value => some (inkOfText value)
  | .sequence _ | .mapping _ | .tagged _ _ => none

/-- The style in which a scalar is written. A key has to fit on one line. -/
def settle (isKey : Bool) (ink : Ink) : ScalarStyle :=
  let can := allowed ink.text
  let style := if isKey && can.multiline then .doubleQuoted else ink.style
  let style :=
    if style = .plain && (!can.plain || (ink.text.isEmpty && isKey)) then .singleQuoted else style
  let style := if style = .singleQuoted && !can.single then .doubleQuoted else style
  if (style = .literal || style = .folded) && (!can.block || isKey) then .doubleQuoted else style

/-- An upper-case hexadecimal digit. -/
def hexDigit (value : Nat) : Char := Char.ofNat (if value < 10 then 48 + value else 55 + value)

/-- A number in so many upper-case hexadecimal digits. -/
def hex : Nat → Nat → List Char
  | 0, _ => []
  | width + 1, value => hex width (value / 16) ++ [hexDigit (value % 16)]

/-- A character between double quotes. -/
def doubleQuoted (c : Char) : List Char :=
  let code := c.toNat
  if isShown c && !isBreak c && c ≠ '"' && c ≠ '\\' then [c]
  else '\\' :: match code with
    | 0x00 => ['0']
    | 0x07 => ['a']
    | 0x08 => ['b']
    | 0x09 => ['t']
    | 0x0A => ['n']
    | 0x0B => ['v']
    | 0x0C => ['f']
    | 0x0D => ['r']
    | 0x1B => ['e']
    | 0x22 => ['"']
    | 0x5C => ['\\']
    | 0x85 => ['N']
    | 0x2028 => ['L']
    | 0x2029 => ['P']
    | _ =>
        if code ≤ 0xFF then 'x' :: hex 2 code
        else if code ≤ 0xFFFF then 'u' :: hex 4 code
        else 'U' :: hex 8 code

/-- Writes the text of a scalar in single quotes, lines at an indentation. -/
def singleQuoted (column : Nat) : Bool → List Char → Page → Page
  | broken, [], page => if broken then page.indent column else page
  | broken, c :: rest, page =>
      if isBreak c then
        let page := if !broken && c == '\n' then page.putBreak '\n' else page
        singleQuoted column true rest { page.putBreak c with indenting := true }
      else if c == ' ' then singleQuoted column broken rest (page.put c)
      else
        let page := if broken then page.indent column else page
        let page := if c == '\'' then page.put '\'' else page
        singleQuoted column false rest { page.put c with indenting := false }

/-- Writes the lines of a literal block at an indentation. -/
def literalLines (column : Nat) : Bool → List Char → Page → Page
  | _, [], page => page
  | broken, c :: rest, page =>
      if isBreak c then literalLines column true rest { page.putBreak c with indenting := true }
      else
        let page := if broken then page.indent column else page
        literalLines column false rest { page.put c with indenting := false }

/-- The indicators behind the bar of a literal block: its indentation where the text starts
with white space, and what is kept of the ends of lines. -/
def literalHints (cs : List Char) : List Char :=
  let width := if cs.head?.any fun c => c == ' ' || isBreak c then ['2'] else []
  let chomping :=
    match cs.reverse with
    | [] => ['-']
    | last :: before =>
        if !isBreak last then ['-']
        else if before.head?.all isBreak then ['+']
        else []
  width ++ chomping

/-- Writes the text of a scalar in a style. -/
def writeInk (column : Nat) (style : ScalarStyle) (cs : List Char) (page : Page) : Page :=
  match style with
  | .plain =>
      let page := if cs.isEmpty then page else page.separate
      { page.putAll cs with spaced := false, indenting := false }
  | .singleQuoted =>
      (singleQuoted column false cs (page.mark ['\''] false false)).markBehind ['\'']
  | .doubleQuoted =>
      ((page.mark ['"'] false false).putAll (cs.flatMap doubleQuoted)).markBehind ['"']
  | .literal | .folded =>
      let page := ((page.mark ['|'] false false).markBehind (literalHints cs)).putBreak '\n'
      literalLines column true cs { page with spaced := true, indenting := true }

/-- The bytes of a character in UTF-8. -/
def bytes (c : Char) : List Nat := (String.singleton c).toUTF8.toList.map UInt8.toNat

/-- A character of a tag, escaped where it could not stand there. -/
def tagChar (c : Char) : List Char :=
  if isWord c || ";/?:@&=+$,.~*'()[]".toList.contains c then [c]
  else (bytes c).flatMap fun byte => '%' :: hex 2 byte

/-- Writes the tag with a name. A lone exclamation mark is written out, between angle
brackets. -/
def writeTag (name : String) (page : Page) : Page :=
  let cs := Tag.ofName name
  let written :=
    if cs = ['!'] then ['!', '<'] ++ tagChar '!' ++ ['>'] else '!' :: (cs.drop 1).flatMap tagChar
  { page.separate.putAll written with spaced := false, indenting := false }

/-- Writes the tag with a name, if there is one. -/
def writeTag? (name : Option String) (page : Page) : Page :=
  match name with
  | none => page
  | some name => writeTag name page

/-- Whether a value is short enough to be a key on one line. -/
def isSimpleKey : Value → Bool
  | .sequence items => items.isEmpty
  | .mapping entries => entries.isEmpty
  | .tagged name value =>
      let size := byteCount (Tag.ofName name)
      match value with
      | .sequence items => items.isEmpty && size ≤ 128
      | .mapping entries => entries.isEmpty && size ≤ 128
      | value => fits size value
  | value => fits 0 value
where
  /-- Whether a scalar and its tag are short and on one line. -/
  fits (tagSize : Nat) (value : Value) : Bool :=
    match ink? value with
    | none => false
    | some ink =>
        !(allowed ink.text).multiline && tagSize + byteCount ink.text ≤ 128

/-- The column of a structure within another. The outermost one has none around it. -/
def inner (around : Option Nat) : Nat :=
  match around with
  | none => 0
  | some column => column + 2

/-- The column of the later lines of a scalar. -/
def scalarColumn (around : Option Nat) : Nat :=
  match around with
  | none => 2
  | some column => column + 2

/-- Writes a scalar with the name in its tag, if it has one. -/
def writeScalar (around : Option Nat) (isKey : Bool) (name : Option String) (value : Value)
    (page : Page) : Page :=
  match ink? value with
  | none => page
  | some ink => writeInk (scalarColumn around) (settle isKey ink) ink.text (writeTag? name page)

mutual

/-- Writes a value with the name in its tag, if it has one. `inMapping` tells that the value
belongs to a mapping, where a sequence need not go deeper. -/
def write (around : Option Nat) (inMapping isKey : Bool) (name : Option String) :
    Value → Page → Page
  | .sequence [], page => ((writeTag? name page).mark ['['] true false).markBehind [']']
  | .sequence items, page =>
      let page := writeTag? name page
      let column :=
        match around with
        | some column => if inMapping && !page.indenting then column else column + 2
        | none => 0
      writeItems column items page
  | .mapping [], page => ((writeTag? name page).mark ['\x7b'] true false).markBehind ['\x7d']
  | .mapping entries, page => writeEntries (inner around) entries (writeTag? name page)
  | .tagged name value, page => write around inMapping isKey (some name) value page
  | value, page => writeScalar around isKey name value page

/-- Writes the items of a sequence at a column. -/
def writeItems (column : Nat) : List Value → Page → Page
  | [], page => page
  | item :: rest, page =>
      writeItems column rest
        (write (some column) false false none item ((page.indent column).mark ['-'] false true))

/-- Writes the entries of a mapping at a column. -/
def writeEntries (column : Nat) : List (Value × Value) → Page → Page
  | [], page => page
  | (key, value) :: rest, page =>
      let page := page.indent column
      let page :=
        if isSimpleKey key then
          (write (some column) true true none key page).markBehind [':']
        else
          ((write (some column) true false none key (page.mark ['?'] false true)).indent
            column).mark [':'] false true
      writeEntries column rest (write (some column) true false none value page)

end

/-- Whether a value starts like a tag: a mapping with a single entry does, and a tagged value
counts as one, with its tag for the key. -/
def startsAsTag : Value → Bool
  | .tagged _ _ => true
  | .mapping entries => entries.length == 1
  | _ => false

mutual

/-- Whether a value has a printed form. The start of a mapping with a single entry waits for the
key, which may turn out to be a tag. A key that starts like a tag waits in its place, so there is
no printed form then, unless a tag before the mapping has started it already. -/
def isWritable (hasTag : Bool) : Value → Bool
  | .sequence items => areWritable items
  | .mapping entries =>
      (hasTag || entries.length ≠ 1 || !entries.any fun (key, _) => startsAsTag key) &&
        entriesWritable entries
  | .tagged _ value => isWritable true value
  | _ => true

/-- Whether all of some values have a printed form. -/
def areWritable : List Value → Bool
  | [] => true
  | value :: rest => isWritable false value && areWritable rest

/-- Whether all of some entries have a printed form. -/
def entriesWritable : List (Value × Value) → Bool
  | [] => true
  | (key, value) :: rest =>
      isWritable false key && isWritable false value && entriesWritable rest

end

/-- The text of a value that has a printed form, its last line ended. -/
def print (value : Value) : String := ((write none false false none value {}).indent 0).text

/-- The printed form of a value, if it has one. -/
def print? (value : Value) : Option String :=
  if isWritable false value then some (print value) else none

end Printer

/-- The text of a value as an argument: of a scalar its plain text, nothing for null, and of
all else its printed form, if it has one. -/
def Value.argument : Value → String
  | .text value => value
  | .whole value => toString value
  | .fraction bits => Value.fractionText bits
  | .truth value => if value then "true" else "false"
  | .null => ""
  | value => ((Printer.print? value).map Text.trimEnd).getD ""

end BehaviorTree.Yaml
