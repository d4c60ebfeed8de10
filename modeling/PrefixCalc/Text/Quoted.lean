import PrefixCalc.Text.Basic
import PrefixCalc.Text.Printable

/-!
# Quoted text

The spelling of a text inside log messages, token listings and complaints: between
quotes, with everything that does not show as itself escaped.
-/

namespace PrefixCalc.Text

/-- A number in hexadecimal, filled up with zeros to `width` digits. -/
def hex (width n : Nat) : Text :=
  let digits : Text := (Nat.toDigits 16 n).map .char
  zeros (width - digits.length) ++ digits

/-- The single quote, unless the text holds single quotes and no double quote. -/
def quoteFor (text : Text) : CodePoint :=
  if text.contains '\x27' && !text.contains '"' then '"' else '\x27'

/-- One code point between the given quotes. -/
def escape (quote c : CodePoint) : Text :=
  if c = quote || c = '\\' then ['\\', c]
  else if c = '\n' then "\\n"
  else if c = '\r' then "\\r"
  else if c = '\t' then "\\t"
  else if isPrintable c then [c]
  else if c.toNat < 0x100 then "\\x" ++ hex 2 c.toNat
  else if c.toNat < 0x10000 then "\\u" ++ hex 4 c.toNat
  else "\\U" ++ hex 8 c.toNat

/-- The text between quotes, on one line and in printable characters only. -/
def quoted (text : Text) : Text :=
  let quote := quoteFor text
  quote :: text.flatMap (escape quote) ++ [quote]

end PrefixCalc.Text
