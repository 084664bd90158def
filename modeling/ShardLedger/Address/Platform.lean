import ShardLedger.Address.Frame
import ShardLedger.Document.Field

/-!
# Platform addresses

A platform address names an account on a network.  Its payload is a version byte and
the account id.
-/

namespace ShardLedger

/-- The version byte of every address. -/
def addressVersion : UInt8 := 0

/-- The address of an account. -/
structure PlatformAddress where
  network : Network
  accountId : AccountId
deriving DecidableEq

namespace PlatformAddress

/-- The kind character of platform addresses. -/
def kind : Char := 'c'

/-- The text of an address. -/
def toText (address : PlatformAddress) : String :=
  AddressFrame.toText ⟨address.network, kind, addressVersion :: address.accountId.bytes⟩

/-- The address of an account id, given as a byte string, on a network. -/
def ofAccountId (accountId : Bytes) (network : Datum) : Except Fault PlatformAddress := do
  let network ← NetworkId.ofDatum network
  let accountId ← Datum.sized "account id" 20 accountId
  return ⟨network.toNetwork, accountId⟩

/-- The account id in a payload, if it has the right version and length. -/
def accountId? : Bytes → Option AccountId
  | version :: rest => if version = addressVersion then FixedBytes.ofBytes? 20 rest else none
  | [] => none

/-- Read an address, which must be on the expected network unless that is `null`. -/
def parse (expected d : Datum) : Except Fault PlatformAddress := do
  let frame ← AddressFrame.ofDatum d
  if frame.kind ≠ kind then refuse (.notPlatformAddress d.plain)
  else
    Network.check expected frame.network
    match accountId? frame.payload with
    | some accountId => return ⟨frame.network, accountId⟩
    | none => refuse (.platformPayload d.plain)

end PlatformAddress

end ShardLedger
