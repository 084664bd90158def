import ShardLedger.Bytes.BigEndian
import ShardLedger.Document.Basic

/-!
# Encoded items

Everything that is hashed or signed is first written as an item: a byte string,
or a list of items.  Each item has one encoding, made of a header that tells its
kind and length and the bytes of its payload.  Documents become items by taking
text as its UTF-8 bytes and numbers as their shortest byte form; a document with
a negative number or a value of any other kind has no encoding.
-/

namespace ShardLedger.Rlp

/-- A byte string or a list of items. -/
inductive Item where
  | bytes (value : Bytes)
  | list (items : List Item)

/-- Why bytes are not the encoding of an item, or a document has none. -/
inductive Flaw where
  /-- A number was needed and something else was given. -/
  | notInteger (kind : String)
  /-- A negative number has no byte form. -/
  | negative (value : Int)
  /-- A value of this kind has no encoding. -/
  | notEncodable (kind : String)
  /-- The byte form of a number starts with a zero byte. -/
  | paddedInteger
  /-- The data end before an item starts. -/
  | missingItem
  /-- The data end inside a length. -/
  | missingLength
  /-- A length starts with a zero byte. -/
  | paddedLength
  /-- A length that fits into the header has bytes of its own. -/
  | longFormOfShort
  /-- A byte string is longer than the data. -/
  | stringTooLong
  /-- A byte that stands for itself has a header. -/
  | wrappedByte
  /-- A list is longer than the data. -/
  | listTooLong
  /-- The last item of a list is longer than what is left of the list. -/
  | itemOverrun
  /-- Bytes are left over after the item. -/
  | trailing (count : Nat)
deriving DecidableEq

/-- What a flaw is reported as. -/
def Flaw.message : Flaw → String
  | notInteger kind => s!"expected an integer, got {kind}"
  | negative value => s!"cannot encode negative integer: {value}"
  | notEncodable kind => s!"cannot RLP-encode value of type {kind}"
  | paddedInteger => "integer has leading zero bytes"
  | missingItem => "unexpected end of data"
  | missingLength => "unexpected end of data reading length"
  | paddedLength => "length has leading zero bytes"
  | longFormOfShort => "long-form length used for a short payload"
  | stringTooLong => "string payload runs past end of data"
  | wrappedByte => "single byte below 0x80 must not carry a string header"
  | listTooLong => "list payload runs past end of data"
  | itemOverrun => "list item overruns list payload"
  | trailing count => s!"trailing bytes after RLP item ({count} bytes)"

/-- The longest payload whose length fits into a one-byte header. -/
def shortLimit : Nat := 55

/-- The header of a payload, from the first codes of its short and long forms. -/
def header (short long length : Nat) : Bytes :=
  if length ≤ shortLimit then [(short + length).toUInt8]
  else
    let size := BigEndian.minimal length
    (long + size.length).toUInt8 :: size

/-- The encoding of a byte string; a byte below `0x80` stands for itself. -/
def encodeBytes : Bytes → Bytes
  | [b] => if b < 0x80 then [b] else header 0x80 0xb7 1 ++ [b]
  | bs => header 0x80 0xb7 bs.length ++ bs

namespace Item

/-- An item that holds a number. -/
def nat (n : Nat) : Item :=
  bytes (BigEndian.minimal n)

/-- An item that holds text. -/
def text (s : String) : Item :=
  bytes s.toUTF8.data.toList

mutual

/-- The encoding of an item. -/
def encode : Item → Bytes
  | bytes b => encodeBytes b
  | list items =>
    let payload := encodeAll items
    header 0xc0 0xf7 payload.length ++ payload

/-- The encodings of some items, one after the other. -/
def encodeAll : List Item → Bytes
  | [] => []
  | x :: rest => encode x ++ encodeAll rest

end

end Item

mutual

/-- The item that a document is encoded as. -/
def normalize : Datum → Except Flaw Item
  | .text s => .ok (.text s)
  | .bytes b => .ok (.bytes b)
  | .int n => if n < 0 then .error (.negative n) else .ok (.nat n.toNat)
  | .list xs => do return .list (← normalizeAll xs)
  | other => .error (.notEncodable other.kind)

/-- The items that some documents are encoded as. -/
def normalizeAll : List Datum → Except Flaw (List Item)
  | [] => .ok []
  | x :: rest => do
    let item ← normalize x
    return item :: (← normalizeAll rest)

end

/-- The encoding of a document. -/
def encode (document : Datum) : Except Flaw Bytes :=
  (normalize document).map Item.encode

/-- The shortest byte form of a number given as a document. -/
def integerBytes : Datum → Except Flaw Bytes
  | .int n => if n < 0 then .error (.negative n) else .ok (BigEndian.minimal n.toNat)
  | other => .error (.notInteger other.kind)

/-- The number whose shortest byte form is given. -/
def bytesInteger : Bytes → Except Flaw Nat
  | 0 :: _ => .error .paddedInteger
  | b => .ok (BigEndian.toNat b)

end ShardLedger.Rlp
