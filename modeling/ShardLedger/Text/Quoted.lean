import ShardLedger.Bytes.Hex
import ShardLedger.Text.Printable

/-!
# Quoted text

Messages repeat the text they complain about between quotes.  The quotes are
single, unless the text holds a single quote and no double one.  The quote and
the backslash are escaped by a backslash, line feed, carriage return and tab by
their letters, and every other unprintable character by its code point.
-/

namespace ShardLedger.Text

/-- The single quote. -/
def singleQuote : Char := '\x27'

/-- The double quote. -/
def doubleQuote : Char := '\x22'

/-- The backslash. -/
def backslash : Char := '\x5c'

/-- The quote that needs the fewest escapes: double only around single quotes alone. -/
def quoteFor (hasSingle hasDouble : Bool) : Char :=
  if hasSingle && !hasDouble then doubleQuote else singleQuote

/-- The last `width` hexadecimal digits of a number. -/
def hexDigits : Nat → Nat → List Char
  | 0, _ => []
  | width + 1, n => hexDigits width (n / 16) ++ [Hex.digit (n % 16)]

/-- A code point that cannot stand for itself, in the shortest of three widths. -/
def escapeCode (n : Nat) : List Char :=
  if n < 0x100 then backslash :: 'x' :: hexDigits 2 n
  else if n < 0x10000 then backslash :: 'u' :: hexDigits 4 n
  else backslash :: 'U' :: hexDigits 8 n

/-- One character of quoted text. -/
def escape (quote c : Char) : List Char :=
  if c = quote ∨ c = backslash then [backslash, c]
  else if c = '\t' then [backslash, 't']
  else if c = '\n' then [backslash, 'n']
  else if c = '\r' then [backslash, 'r']
  else if isPrintable c then [c]
  else escapeCode c.toNat

/-- Text between quotes. -/
def quoted (s : String) : String :=
  let cs := s.toList
  let quote := quoteFor (cs.contains singleQuote) (cs.contains doubleQuote)
  String.ofList (quote :: cs.flatMap (escape quote) ++ [quote])

/-- One byte of a quoted byte string: an ASCII character, or the number of the byte. -/
def escapeByte (quote : Char) (b : UInt8) : List Char :=
  if b.toNat < 0x7f then escape quote (Char.ofNat b.toNat) else escapeCode b.toNat

/-- A byte string between quotes, behind the letter that tells it from text. -/
def quotedBytes (b : Bytes) : String :=
  let has := fun c : Char => b.contains c.toNat.toUInt8
  let quote := quoteFor (has singleQuote) (has doubleQuote)
  String.ofList ('b' :: quote :: b.flatMap (escapeByte quote) ++ [quote])

end ShardLedger.Text
