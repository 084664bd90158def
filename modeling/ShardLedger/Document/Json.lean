import ShardLedger.Document.Basic
import ShardLedger.Keyed

/-!
# JSON text

Reading documents from JSON text.  A number with a fraction or an exponent stays a
floating-point number, and so do the words for what is infinite or not a number.  A field
that occurs twice keeps its place and takes the later value.  A string that spells half of
a surrogate pair is no text and read as bytes.
-/

namespace ShardLedger.Json

/-- Drop the blanks that may stand between tokens. -/
def skipBlanks (cs : List Char) : List Char :=
  cs.dropWhile fun c => c = ' ' || c = '\t' || c = '\n' || c = '\r'

/-- The value of four hexadecimal digits. -/
def codeUnit? (a b c d : Char) : Option Nat := do
  let a ← Hex.value? a
  let b ← Hex.value? b
  let c ← Hex.value? c
  let d ← Hex.value? d
  return ((a * 16 + b) * 16 + c) * 16 + d

/-- The character that a letter behind a backslash stands for. -/
def escaped? (c : Char) : Option Char :=
  if c = Text.doubleQuote ∨ c = Text.backslash ∨ c = '/' then some c
  else if c = 'b' then some '\x08'
  else if c = 'f' then some '\x0c'
  else if c = 'n' then some '\n'
  else if c = 'r' then some '\r'
  else if c = 't' then some '\t'
  else none

/-- The code point that two halves of a surrogate pair stand for. -/
def pair? (high low : Nat) : Option Nat :=
  if 0xd800 ≤ high ∧ high < 0xdc00 ∧ 0xdc00 ≤ low ∧ low < 0xe000 then
    some (0x10000 + (high - 0xd800) * 0x400 + (low - 0xdc00))
  else none

/-- Code points with the halves of surrogate pairs put together. -/
def joinPairs : List Nat → List Nat
  | high :: low :: rest =>
    match pair? high low with
    | some code => code :: joinPairs rest
    | none => high :: joinPairs (low :: rest)
  | codes => codes

/-- The rest of a string behind its opening quote, with the code points read so far in reverse. -/
def stringTail (read : List Nat) : List Char → Option (List Nat × List Char)
  | [] => none
  | '\x22' :: rest => some (joinPairs read.reverse, rest)
  | '\x5c' :: 'u' :: a :: b :: c :: d :: rest => do
    stringTail ((← codeUnit? a b c d) :: read) rest
  | '\x5c' :: c :: rest => do
    stringTail ((← escaped? c).toNat :: read) rest
  | c :: rest => if c.toNat < 0x20 then none else stringTail (c.toNat :: read) rest

/-- The bytes of a code point, also of half of a surrogate pair. -/
def codeBytes (code : Nat) : Bytes :=
  if code.isValidChar then (String.singleton (Char.ofNat code)).toUTF8.toList
  else [0xe0 + code / 0x1000, 0x80 + code / 0x40 % 0x40, 0x80 + code % 0x40].map Nat.toUInt8

/-- Code points as a text, or as bytes if one of them is half of a surrogate pair. -/
def textOf (codes : List Nat) : Datum :=
  if codes.all fun code => decide code.isValidChar then .text (String.ofList (codes.map Char.ofNat))
  else .bytes (codes.flatMap codeBytes)

/-- Code points as the name of a field, where half of a surrogate pair is replaced. -/
def nameOf (codes : List Nat) : String :=
  String.ofList (codes.map fun code => if code.isValidChar then Char.ofNat code else '\ufffd')

/-- The digits at the front of a text. -/
def takeDigits (cs : List Char) : List Char × List Char :=
  (cs.takeWhile Char.isDigit, cs.dropWhile Char.isDigit)

/-- The number that decimal digits spell. -/
def natural (cs : List Char) : Nat :=
  cs.foldl (fun n c => n * 10 + (c.toNat - 48)) 0

/-- An optional fraction: its digits, and whether it is there. -/
def fraction? : List Char → Option (List Char × Bool × List Char)
  | '.' :: rest =>
    let (digits, rest) := takeDigits rest
    if digits.isEmpty then none else some (digits, true, rest)
  | rest => some ([], false, rest)

/-- An optional exponent: its value, and whether it is there. -/
def exponent? (cs : List Char) : Option (Int × Bool × List Char) :=
  match cs with
  | e :: rest =>
    if e = 'e' ∨ e = 'E' then
      let (negative, rest) := match rest with
        | '-' :: rest => (true, rest)
        | '+' :: rest => (false, rest)
        | rest => (false, rest)
      let (digits, rest) := takeDigits rest
      if digits.isEmpty then none
      else
        let n : Int := natural digits
        some (if negative then -n else n, true, rest)
    else some (0, false, cs)
  | [] => some (0, false, [])

/-- A number without its sign.  A whole number may not have too many digits. -/
def number (negative : Bool) (cs : List Char) : Option (Datum × List Char) := do
  let (whole, rest) := takeDigits cs
  if whole.isEmpty || (whole.length > 1 && whole.head? == some '0') then none
  else
    let (decimals, hasFraction, rest) ← fraction? rest
    let (exponent, hasExponent, rest) ← exponent? rest
    let digits := natural (whole ++ decimals)
    if hasFraction || hasExponent then
      return (.real (.ofDecimal negative digits (exponent - decimals.length)), rest)
    else if whole.length > Text.Numeral.digitLimit then none
    else
      let n : Int := digits
      return (.int (if negative then -n else n), rest)

mutual

/-- A value at the front of a text. -/
def value : Nat → List Char → Option (Datum × List Char)
  | 0, _ => none
  | fuel + 1, cs =>
    match skipBlanks cs with
    | 'n' :: 'u' :: 'l' :: 'l' :: rest => some (.null, rest)
    | 't' :: 'r' :: 'u' :: 'e' :: rest => some (.bool true, rest)
    | 'f' :: 'a' :: 'l' :: 's' :: 'e' :: rest => some (.bool false, rest)
    | 'N' :: 'a' :: 'N' :: rest => some (.real .nan, rest)
    | '\x22' :: rest => (stringTail [] rest).map fun (codes, rest) => (textOf codes, rest)
    | '[' :: rest =>
      match skipBlanks rest with
      | ']' :: rest => some (.list [], rest)
      | rest => items fuel [] rest
    | '\x7b' :: rest =>
      match skipBlanks rest with
      | '\x7d' :: rest => some (.object [], rest)
      | rest => fields fuel [] rest
    | '-' :: rest => signed true rest
    | rest => signed false rest
where
  /-- A number behind its sign, or the word for an infinite one. -/
  signed (negative : Bool) (cs : List Char) : Option (Datum × List Char) :=
    match cs with
    | 'I' :: 'n' :: 'f' :: 'i' :: 'n' :: 'i' :: 't' :: 'y' :: rest =>
      some (.real (.infinite negative), rest)
    | cs => number negative cs

/-- The items of a list up to its closing bracket, with those read so far in reverse. -/
def items : Nat → List Datum → List Char → Option (Datum × List Char)
  | 0, _, _ => none
  | fuel + 1, read, cs => do
    let (item, rest) ← value fuel cs
    match skipBlanks rest with
    | ',' :: rest => items fuel (item :: read) rest
    | ']' :: rest => some (.list (item :: read).reverse, rest)
    | _ => none

/-- The fields of an object up to its closing brace, with those read so far. -/
def fields : Nat → List (String × Datum) → List Char → Option (Datum × List Char)
  | 0, _, _ => none
  | fuel + 1, read, cs =>
    match skipBlanks cs with
    | '\x22' :: rest => do
      let (codes, rest) ← stringTail [] rest
      match skipBlanks rest with
      | ':' :: rest => do
        let (item, rest) ← value fuel rest
        let read := Keyed.put (nameOf codes) item read
        match skipBlanks rest with
        | ',' :: rest => fields fuel read rest
        | '\x7d' :: rest => some (.object read, rest)
        | _ => none
      | _ => none
    | _ => none

end

/-- The document that a text spells. -/
def parse? (s : String) : Option Datum :=
  let cs := s.toList
  match value (cs.length + 1) cs with
  | some (document, rest) => if (skipBlanks rest).isEmpty then some document else none
  | none => none

end ShardLedger.Json
