import BehaviorTree.Text.Printable

/-!
# Quoted texts

The form in which a text is shown to programmers: in double quotes, with escapes for quotes,
backslashes and everything that would not be seen as it is.
-/

namespace BehaviorTree.Text

/-- The hexadecimal digits of a number, without leading zeros. -/
def hexDigits (value : Nat) : List Char := Nat.toDigits 16 value

/-- The form of one character between double quotes. -/
def escapeChar (c : Char) : List Char :=
  if c = '\x00' then ['\\', '0']
  else if c = '\t' then ['\\', 't']
  else if c = '\r' then ['\\', 'r']
  else if c = '\n' then ['\\', 'n']
  else if c = '"' then ['\\', '"']
  else if c = '\\' then ['\\', '\\']
  else if isExtending c || !isPrintable c then
    ['\\', 'u', '\x7b'] ++ hexDigits c.toNat ++ ['\x7d']
  else [c]

/-- A text in double quotes. -/
def quote (text : String) : String :=
  String.ofList ('"' :: text.toList.flatMap escapeChar ++ ['"'])

/-- Texts in brackets, separated by commas. -/
def bracketed (items : List String) : String := "[" ++ ", ".intercalate items ++ "]"

end BehaviorTree.Text
