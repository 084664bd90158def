import ShardLedger.Address.Bech32
import ShardLedger.Address.Network

/-!
# The frame of an address

An address is the two characters of its network, one character for its kind, and a
payload in checksummed text, without separators.
-/

namespace ShardLedger

/-- The parts of an address. -/
structure AddressFrame where
  network : Network
  kind : Char
  payload : Bytes
deriving DecidableEq

namespace AddressFrame

/-- The characters in front of the payload. -/
def frontLength : Nat := 3

/-- The text of a payload behind any characters. -/
def encode (front : List Char) (payload : Bytes) : String :=
  let words := Bech32.toWords payload
  String.ofList (front ++ (words ++ Bech32.checksum front words).map Bech32.character)

/-- The text of an address. -/
def toText (frame : AddressFrame) : String :=
  encode (frame.network.text.toList ++ [frame.kind]) frame.payload

/-- Take the text of an address apart. -/
def ofText (s : String) : Except Fault AddressFrame :=
  let cs := s.toList
  if hl : cs.all Text.isLowered = true then
    if cs.length < frontLength + Bech32.checksumLength then refuse (.addressTooShort s)
    else
      match hc : cs with
      | a :: b :: kind :: body =>
        match body.mapM Bech32.word? with
        | none => refuse (.addressCharacters s)
        | some words =>
          if Bech32.isChecked [a, b, kind] words then
            match Bech32.ofWords? (words.take (words.length - Bech32.checksumLength)) with
            | none => refuse (.addressPadding s)
            | some payload =>
              let network : Network := ⟨String.ofList [a, b], by simp, by
                simp only [List.all_cons, Bool.and_eq_true] at hl
                simp [hl.1, hl.2.1]⟩
              .ok ⟨network, kind, payload⟩
          else refuse (.addressChecksum s)
      | _ => refuse (.addressTooShort s)
  else refuse (.addressNotLowered s)

/-- Take an address apart that is given as a document. -/
def ofDatum : Datum → Except Fault AddressFrame
  | .text s => ofText s
  | other => refuse (.addressNotText other.kind)

end AddressFrame

end ShardLedger
