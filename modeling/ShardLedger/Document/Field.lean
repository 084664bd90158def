import ShardLedger.Fault
import ShardLedger.Keyed

/-!
# Reading fields

How the parts of a document become values: the fields of an object, the items of a
list, byte strings, and numbers.  Byte strings may be given as hexadecimal text or as
lists of bytes, numbers as numbers or as numerals.
-/

namespace ShardLedger.Datum

/-- A field of an object, if it is there. -/
def field? (name : String) : Datum → Except Fault (Option Datum)
  | object fields => .ok (Keyed.get? name fields)
  | _ => .error .notAnObject

/-- A field of an object, or a default in its place. -/
def fieldOr (d : Datum) (name : String) (default : Datum) : Except Fault Datum := do
  return (← d.field? name).getD default

/-- A field that an object must have. -/
def field (name : String) : Datum → Except Fault Datum
  | object fields =>
    match Keyed.get? name fields with
    | some value => .ok value
    | none => .error (.absentField name)
  | _ => .error .wrongKind

/-- An optional field, where `null` counts as absent. -/
def optional (name : String) (d : Datum) : Except Fault (Option Datum) := do
  match ← d.field? name with
  | some null => return none
  | other => return other

/-- What a document runs through: the items of a list, the characters of a text, the names of an
object's fields, the bytes of a byte string. -/
def elements : Datum → Except Fault (List Datum)
  | list items => .ok items
  | text s => .ok (s.toList.map fun c => text c.toString)
  | object fields => .ok (fields.map fun f => text f.1)
  | bytes b => .ok (b.map fun x => int x.toNat)
  | _ => .error .wrongKind

/-- A document as one byte. -/
def byte : Datum → Except Fault UInt8
  | int n => if 0 ≤ n ∧ n < 256 then .ok n.toNat.toUInt8 else .error .badValue
  | bool b => .ok (if b then 1 else 0)
  | _ => .error .wrongKind

/-- A run of zero bytes of the given length, which must be a possible size. -/
def zeros (n : Int) : Except Fault Bytes :=
  if n < -0x8000000000000000 ∨ 0x8000000000000000 ≤ n then .error .overflow
  else if n < 0 then .error .badValue
  else .ok (List.replicate n.toNat 0)

/-- A document as a byte string: its bytes one by one, or as many zeros as a number says. -/
def rawBytes : Datum → Except Fault Bytes
  | bytes b => .ok b
  | int n => zeros n
  | bool b => zeros (if b then 1 else 0)
  | list items => items.mapM byte
  | object fields => if fields.isEmpty then .ok [] else .error .wrongKind
  | _ => .error .wrongKind

/-- The bytes of hexadecimal text, or a byte string as it is. -/
def hexBytes (name : String) : Datum → Except Fault Bytes
  | bytes b => .ok b
  | text s =>
    match Hex.decode (Hex.dropMarker s.toList) with
    | some b => .ok b
    | none => refuse (.notHex name s)
  | other => refuse (.notHexText name other.kind)

/-- Check the length of a byte string. -/
def sized (name : String) (n : Nat) (b : Bytes) : Except Fault (FixedBytes n) :=
  match FixedBytes.ofBytes? n b with
  | some x => .ok x
  | none => refuse (.wrongLength name n b.length)

/-- A byte string of `n` bytes, given as hexadecimal text. -/
def hexOf (n : Nat) (name : String) (d : Datum) : Except Fault (FixedBytes n) := do
  sized name n (← d.hexBytes name)

/-- A byte string given as hexadecimal text or as a list of bytes. -/
def byteString (name : String) (d : Datum) : Except Fault Bytes :=
  match d with
  | text _ => d.hexBytes name
  | bytes b => .ok b
  | other =>
    match other.rawBytes with
    | .error .wrongKind => refuse (.notByteList name)
    | .error .badValue => refuse (.notByteList name)
    | result => result

/-- A number from zero up, given as a number or a numeral. -/
def unsigned (name : String) (d : Datum) : Except Fault Nat := do
  let n ← match d with
    | int n => pure n
    | text s =>
      match Text.Numeral.parse? s with
      | some n => pure n
      | none => refuse (.notNumeral name s)
    | other => refuse (.notInteger name other.kind)
  if n < 0 then refuse (.negative name n) else return n.toNat

/-- A number from zero up, unless it is `null`. -/
def optionalUnsigned (name : String) (d : Option Datum) : Except Fault (Option Nat) :=
  match d with
  | none => .ok none
  | some d => (d.unsigned name).map some

/-- A list of byte strings. -/
def parameters (d : Datum) : Except Fault (List Bytes) := do
  (← d.elements).mapM (byteString "parameter")

/-- A list of byte strings as `rawBytes` reads them. -/
def rawParameters (d : Datum) : Except Fault (List Bytes) := do
  (← d.elements).mapM rawBytes

/-- A positive amount. -/
def amount : Datum → Except Fault { n : Nat // 0 < n }
  | int (.ofNat (n + 1)) => .ok ⟨n + 1, n.succ_pos⟩
  | other => refuse (.notPositive other)

/-- A number from zero up that is given as a number. -/
def natural (name : String) : Datum → Except Fault Nat
  | int n => if n < 0 then refuse (.notUnsigned name (int n)) else .ok n.toNat
  | other => refuse (.notUnsigned name other)

/-- A number of 16 bits that is given as a number. -/
def sixteenBits (name : String) : Datum → Except Fault UInt16
  | int n =>
    if 0 ≤ n ∧ n < 65536 then .ok n.toNat.toUInt16 else refuse (.notSixteenBits name (int n))
  | other => refuse (.notSixteenBits name other)

/-- A number from zero up, or nothing for `null`. -/
def naturalOrNull (name : String) : Datum → Except Fault (Option Nat)
  | null => .ok none
  | other => (other.natural name).map some

/-- A number as a document, `null` if there is none. -/
def numberOrNull : Option Nat → Datum
  | some n => int n
  | none => null

/-- A number as a decimal numeral. -/
def numeral (n : Nat) : Except Fault Datum :=
  if Text.Numeral.isWritable n then .ok (.text (toString n)) else .error .unwritable

end ShardLedger.Datum
