import ShardLedger.Fault
import ShardLedger.Text.LowerCase

/-!
# Networks

A network is named by two characters.  Parcels and transactions only take ASCII
characters that are not upper-case letters; an address may carry any two characters
that are their own lower-case form.
-/

namespace ShardLedger

/-- The two characters in front of an address. -/
structure Network where
  text : String
  length_text : text.toList.length = 2
  lowered : text.toList.all Text.isLowered = true
deriving DecidableEq

/-- Whether a character may stand in a network id. -/
def Text.isLoweredAscii (c : Char) : Bool :=
  c.toNat < 0x80 && Text.isLowered c

/-- The network id of a parcel or a transaction. -/
structure NetworkId where
  text : String
  length_text : text.toList.length = 2
  loweredAscii : text.toList.all Text.isLoweredAscii = true
deriving DecidableEq

namespace NetworkId

/-- A text that is a network id. -/
def ofText? (s : String) : Option NetworkId :=
  if h : s.toList.length = 2 ∧ s.toList.all Text.isLoweredAscii = true then some ⟨s, h.1, h.2⟩
  else none

/-- Read a network id. -/
def ofDatum (d : Datum) : Except Fault NetworkId :=
  match d with
  | .text s =>
    match ofText? s with
    | some network => .ok network
    | none => refuse (.badNetworkId d)
  | _ => refuse (.badNetworkId d)

/-- A network id in front of an address. -/
def toNetwork (network : NetworkId) : Network where
  text := network.text
  length_text := network.length_text
  lowered := by
    have ascii := network.loweredAscii
    rw [List.all_eq_true] at ascii ⊢
    intro c member
    exact (Bool.and_eq_true _ _ ▸ ascii c member).2

/-- The network in use unless another one is named. -/
def standard : NetworkId :=
  ⟨"tc", by decide, by decide⟩

end NetworkId

namespace Network

/-- Check a network against an expected one; `null` expects nothing. -/
def check (expected : Datum) (actual : Network) : Except Fault Unit :=
  if expected = .null ∨ expected = .text actual.text then .ok ()
  else .error (.networkMismatch expected actual.text)

end Network

end ShardLedger
