import ShardLedger.Bytes.BigEndian
import ShardLedger.Curve.Basic
import ShardLedger.Document.Field

/-!
# Signatures

A signature holds two scalars and a recovery id, which tells the two public keys that
fit the scalars apart.  Its byte form is 65 bytes, its text form their hexadecimal
digits behind `0x`; the text form also exists for other widths.  The numbers of a
signature are not bounded, only its written forms are.
-/

namespace ShardLedger

/-- A signature with its recovery id. -/
structure Signature where
  r : Int
  s : Int
  /-- The recovery id: zero or one in a signature that can be recovered. -/
  v : Int
deriving DecidableEq

namespace Signature

/-- The width of a scalar, in bytes. -/
def scalarWidth : Nat := 32

/-- The width of the recovery id, in bytes. -/
def recoveryIdWidth : Nat := 1

/-- The length of the byte form. -/
def size : Nat := 65

/-- The number of binary digits. -/
def bitLength (n : Nat) : Nat :=
  if n = 0 then 0 else Nat.log2 n + 1

/-- A number that fits into a width, as a natural number. -/
def fitting (value width : Int) : Except Fault Nat :=
  if value < 0 ∨ (bitLength value.toNat : Int) > width * 8 then refuse (.tooWide width)
  else .ok value.toNat

/-- The hexadecimal digits of a number, with zeros in front up to a width in bytes. -/
def padHex (value width : Int) : Except Fault (List Char) := do
  let digits := Hex.natural (← fitting value width)
  return List.replicate ((width * 2).toNat - digits.length) '0' ++ digits

/-- The text form for given widths. -/
def textOf (scalarWidth recoveryIdWidth : Int) (signature : Signature) : Except Fault String := do
  let r ← padHex signature.r scalarWidth
  let s ← padHex signature.s scalarWidth
  let v ← padHex signature.v recoveryIdWidth
  return "0x" ++ String.ofList (r ++ s ++ v)

/-- The text form. -/
def toText (signature : Signature) : Except Fault String :=
  signature.textOf scalarWidth recoveryIdWidth

/-- Read the text form for given widths. -/
def parseWidths (scalarWidth recoveryIdWidth : Int) : Datum → Except Fault Signature
  | .text s =>
    let body := Hex.dropMarker s.toList
    let expected := 2 * scalarWidth + recoveryIdWidth
    if (body.length : Int) ≠ expected * 2 then refuse (.signatureLength expected body.length)
    else
      match Hex.decode body with
      | none => refuse (.signatureNotHex s)
      | some raw =>
        let number := fun start stop => (BigEndian.toNat (raw.between start stop) : Int)
        .ok ⟨number 0 scalarWidth, number scalarWidth (2 * scalarWidth),
          number (2 * scalarWidth) raw.length⟩
  | other => refuse (.signatureNotText other.kind)

/-- Read the text form. -/
def parse (d : Datum) : Except Fault Signature :=
  parseWidths scalarWidth recoveryIdWidth d

/-- The numbers of a signature as a document. -/
def toDatum (signature : Signature) : Datum :=
  .object [("r", .int signature.r), ("s", .int signature.s), ("v", .int signature.v)]

/-- The byte form. -/
def toBytes (signature : Signature) : Except Fault (FixedBytes 65) := do
  let r ← fitting signature.r scalarWidth
  let s ← fitting signature.s scalarWidth
  let v ← fitting signature.v recoveryIdWidth
  return ⟨BigEndian.fixed 32 r ++ BigEndian.fixed 32 s ++ BigEndian.fixed 1 v, by simp⟩

/-- The signature with a given byte form. -/
def ofFixedBytes (b : FixedBytes 65) : Signature :=
  ⟨BigEndian.toNat (b.bytes.take 32), BigEndian.toNat ((b.bytes.drop 32).take 32),
    BigEndian.toNat (b.bytes.drop 64)⟩

/-- Read the byte form. -/
def ofBytes (b : Bytes) : Except Fault Signature := do
  return ofFixedBytes (← Datum.sized "signature" 65 b)

/-- Whether the second scalar lies in the lower half. -/
def isLow (signature : Signature) : Bool :=
  signature.s ≤ (secp256k1.n / 2 : Nat)

/-- The neighbour that differs in the last bit. -/
def flipLastBit (v : Int) : Int :=
  if v % 2 = 0 then v + 1 else v - 1

/-- The other signature that the same key could have made. -/
def complement (signature : Signature) : Signature :=
  ⟨signature.r, secp256k1.n - signature.s, flipLastBit signature.v⟩

end Signature

end ShardLedger
