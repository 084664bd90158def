import ShardLedger.Rlp.Item

/-!
# Decoding items

Decoding reads one item from the front of the data and tells how many bytes it
took.  Only the one canonical encoding of each item is accepted: lengths without
leading zeros and in their short form when they fit, no header around a byte that
stands for itself, and lists that their items fill exactly.  An item inside a list
may be read past the end of the list, which then refuses it.
-/

namespace ShardLedger.Rlp

/-- An item read from the front of `data`, and the number of bytes that it took. -/
abbrev Reading (data : Bytes) :=
  { read : Item × Nat // 0 < read.2 ∧ read.2 ≤ data.length }

/-- The length behind a long-form header, in `size` bytes. -/
def readLength (data : Bytes) (size : Nat) : Except Flaw Nat :=
  let raw := data.take size
  if raw.length ≠ size then .error .missingLength
  else if raw.head? = some 0 then .error .paddedLength
  else
    let length := BigEndian.toNat raw
    if length ≤ shortLimit then .error .longFormOfShort else .ok length

/-- The size of a header behind its first byte, and the length of the payload behind it, from the
first codes of the short and long forms. -/
def readHeader (short long : Nat) (code : UInt8) (data : Bytes) : Except Flaw (Nat × Nat) :=
  if code.toNat ≤ long then .ok (0, code.toNat - short)
  else do
    let size := code.toNat - long
    return (size, ← readLength data size)

/-- A payload as a byte string, unless it is a byte that stands for itself. -/
def stringOf : Bytes → Except Flaw Bytes
  | [b] => if b < 0x80 then .error .wrappedByte else .ok [b]
  | value => .ok value

mutual

/-- Read one item from the front of the data. -/
def readItem (data : Bytes) : Except Flaw (Reading data) :=
  match data with
  | [] => .error .missingItem
  | code :: rest =>
    if code < 0x80 then .ok ⟨(.bytes [code], 1), by simp⟩
    else if code < 0xc0 then
      match readHeader 0x80 0xb7 code rest with
      | .error flaw => .error flaw
      | .ok (size, length) =>
        if hl : size + length ≤ rest.length then
          match stringOf ((rest.drop size).take length) with
          | .error flaw => .error flaw
          | .ok value => .ok ⟨(.bytes value, 1 + size + length), by
              simp only [List.length_cons]
              omega⟩
        else .error .stringTooLong
    else
      match readHeader 0xc0 0xf7 code rest with
      | .error flaw => .error flaw
      | .ok (size, length) =>
        if hl : size + length ≤ rest.length then
          match readItems (rest.drop size) length with
          | .error flaw => .error flaw
          | .ok items => .ok ⟨(.list items, 1 + size + length), by
              simp only [List.length_cons]
              omega⟩
        else .error .listTooLong
termination_by 2 * data.length

/-- Read the items of a list whose payload takes `length` bytes. -/
def readItems (data : Bytes) (length : Nat) : Except Flaw (List Item) :=
  if length = 0 then .ok []
  else
    match readItem data with
    | .error flaw => .error flaw
    | .ok ⟨(item, size), _⟩ =>
      if length < size then .error .itemOverrun
      else
        match readItems (data.drop size) (length - size) with
        | .error flaw => .error flaw
        | .ok items => .ok (item :: items)
termination_by 2 * data.length + 1

end

/-- Read the item that starts at an offset, and the offset behind it. -/
def readItemAt (data : Bytes) (offset : Nat) : Except Flaw (Item × Nat) :=
  (readItem (data.drop offset)).map fun read => (read.1.1, offset + read.1.2)

/-- The item that the data encode as a whole. -/
def decode (data : Bytes) : Except Flaw Item := do
  let (item, stop) ← readItemAt data 0
  if stop = data.length then return item
  else .error (.trailing (data.length - stop))

end ShardLedger.Rlp
