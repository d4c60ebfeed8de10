import PrefixCalc.Text.Band
import PrefixCalc.Text.Basic

/-!
# Blank characters

A character is blank when Unicode gives it a white-space or separating role: tab to
carriage return, the four information separators, the space, next line, and the space
separators. The zero-width space and the byte order mark are not blank.
-/

namespace PrefixCalc.Text

/-- The code points at which blankness changes. -/
def blankBands : List Nat :=
  [0x9, 0xE, 0x1C, 0x21, 0x85, 0x86, 0xA0, 0xA1, 0x1680, 0x1681,
   0x2000, 0x200B, 0x2028, 0x202A, 0x202F, 0x2030, 0x205F, 0x2060, 0x3000, 0x3001]

/-- Whether a character separates words. -/
def isBlank (c : CodePoint) : Bool := inBands blankBands c.toNat

/-- The text without blank characters at either end. -/
def trim (text : Text) : Text := strip isBlank text

end PrefixCalc.Text
