import PrefixCalc.Text.Quoted

/-!
# Quoted text in JSON

The JSON spelling of a text in printable ASCII: short escapes where JSON has them,
four hexadecimal digits for every other code point outside the printable range, and a
surrogate pair for a character beyond sixteen bits.
-/

namespace PrefixCalc.Json

/-- An escaped code unit of sixteen bits. -/
def escapeUnit (unit : Nat) : Text := "\\u" ++ Text.hex 4 unit

/-- One code point of a JSON text. -/
def escape (c : CodePoint) : Text :=
  if c = '"' || c = '\\' then ['\\', c]
  else if c = '\n' then "\\n"
  else if c = '\r' then "\\r"
  else if c = '\t' then "\\t"
  else if c = '\x08' then "\\b"
  else if c = '\x0c' then "\\f"
  else if ' ' ≤ c && c ≤ '~' then [c]
  else if c.toNat < 0x10000 then escapeUnit c.toNat
  else
    let offset := c.toNat - 0x10000
    escapeUnit (0xD800 + offset / 0x400) ++ escapeUnit (0xDC00 + offset % 0x400)

/-- A text as a JSON string. -/
def quoted (text : Text) : Text := "\"" ++ text.flatMap escape ++ "\""

end PrefixCalc.Json
