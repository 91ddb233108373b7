/-!
# White space

The characters with the Unicode property of white space, and cutting them off both ends of a
text.
-/

namespace BehaviorTree.Text

/-- Whether a character is white space. -/
def isBlank (c : Char) : Bool :=
  let code := c.toNat
  (9 ≤ code && code ≤ 13) || code == 0x20 || code == 0x85 || code == 0xA0 || code == 0x1680 ||
    (0x2000 ≤ code && code ≤ 0x200A) || code == 0x2028 || code == 0x2029 || code == 0x202F ||
    code == 0x205F || code == 0x3000

/-- Cuts white space off the end. -/
def trimEndChars (cs : List Char) : List Char := (cs.reverse.dropWhile isBlank).reverse

/-- Cuts white space off both ends. -/
def trimChars (cs : List Char) : List Char := trimEndChars (cs.dropWhile isBlank)

/-- Cuts white space off both ends of a text. -/
def trim (text : String) : String := String.ofList (trimChars text.toList)

/-- Cuts white space off the end of a text. -/
def trimEnd (text : String) : String := String.ofList (trimEndChars text.toList)

end BehaviorTree.Text
