import ShardLedger.Address.Platform
import ShardLedger.Script.Standard

/-!
# Asset transfer addresses

An asset transfer address names the condition under which assets sent to it may be
spent.  Its payload is a version byte, a type and 32 bytes: the hash of a lock script
without parameters, or the hash of the public key that a standard script asks for.
-/

namespace ShardLedger

/-- The lock script hash and the parameters of an output. -/
structure SpendCondition where
  lockScriptHash : Digest
  parameters : List Bytes
deriving DecidableEq

/-- What the payload of an asset transfer address stands for. -/
inductive AddressType where
  /-- The hash of a lock script without parameters. -/
  | lockScriptHash
  /-- The hash of a public key that may spend. -/
  | payToKey
  /-- The hash of a public key that may burn. -/
  | burnWithKey
deriving DecidableEq

namespace AddressType

/-- The code of a type. -/
def code : AddressType → Nat
  | lockScriptHash => 0
  | payToKey => 1
  | burnWithKey => 2

/-- The type with a given code. -/
def ofCode? (n : Int) : Option AddressType :=
  if n = 0 then some lockScriptHash
  else if n = 1 then some payToKey
  else if n = 2 then some burnWithKey
  else none

/-- The number that a document equals. -/
def numeric? : Datum → Option Int
  | .int n => some n
  | .bool b => some (if b then 1 else 0)
  | .real x => x.toInt?
  | _ => none

/-- Read a type. -/
def ofDatum (d : Datum) : Except Fault AddressType :=
  match (numeric? d).bind ofCode? with
  | some type => .ok type
  | none => .error (.unknownAddressType d)

end AddressType

/-- The address of a spend condition. -/
structure TransferAddress where
  network : Network
  type : AddressType
  payload : Digest
deriving DecidableEq

namespace TransferAddress

/-- The kind character of asset transfer addresses. -/
def kind : Char := 'a'

/-- The text of an address. -/
def toText (address : TransferAddress) : String :=
  AddressFrame.toText ⟨address.network, kind,
    addressVersion :: address.type.code.toUInt8 :: address.payload.bytes⟩

/-- A payload of the right length for an address. -/
def payloadOf (type : AddressType) (payload : Bytes) : Except Fault Digest :=
  match FixedBytes.ofBytes? 32 payload with
  | some payload => .ok payload
  | none => refuse (.payloadLength type.code payload.length)

/-- The address with a type and a payload on a network. -/
def ofPayload (type : Datum) (payload : Bytes) (network : Datum) : Except Fault TransferAddress := do
  let network ← NetworkId.ofDatum network
  let type ← AddressType.ofDatum type
  return ⟨network.toNetwork, type, ← payloadOf type payload⟩

/-- The type and payload that stand for a lock script hash and parameters, if any do. -/
def representation? (lockScriptHash : Bytes) : List Bytes → Option (AddressType × Bytes)
  | [] => some (.lockScriptHash, lockScriptHash)
  | [parameter] =>
    if parameter.length ≠ 32 then none
    else if lockScriptHash = Script.payToKeyHash.bytes then some (.payToKey, parameter)
    else if lockScriptHash = Script.burnWithKeyHash.bytes then some (.burnWithKey, parameter)
    else none
  | _ => none

/-- The address of a lock script hash and parameters on a network. -/
def ofCondition (lockScriptHash : Bytes) (parameters : List Bytes) (network : Datum) :
    Except Fault TransferAddress :=
  match representation? lockScriptHash parameters with
  | some (type, payload) => ofPayload (.int type.code) payload network
  | none => refuse .noAddress

/-- Read an address, which must be on the expected network unless that is `null`. -/
def parse (expected d : Datum) : Except Fault TransferAddress := do
  let frame ← AddressFrame.ofDatum d
  if frame.kind ≠ kind then refuse (.notTransferAddress d.plain)
  else
    Network.check expected frame.network
    match frame.payload with
    | version :: code :: payload =>
      if version ≠ addressVersion then refuse (.transferPayload d.plain)
      else
        let type ← AddressType.ofDatum (.int code.toNat)
        return ⟨frame.network, type, ← payloadOf type payload⟩
    | _ => refuse (.transferPayload d.plain)

/-- The condition that an address stands for. -/
def condition (address : TransferAddress) : SpendCondition :=
  match address.type with
  | .lockScriptHash => ⟨address.payload, []⟩
  | .payToKey => ⟨Script.payToKeyHash, [address.payload.bytes]⟩
  | .burnWithKey => ⟨Script.burnWithKeyHash, [address.payload.bytes]⟩

end TransferAddress

/-- An address as clients name it: one that has been read already, or a document. -/
inductive AddressInput where
  | platform (address : PlatformAddress)
  | transfer (address : TransferAddress)
  | written (document : Datum)

namespace AddressInput

/-- The platform address that is meant. -/
def toPlatform : AddressInput → Except Fault PlatformAddress
  | platform address => .ok address
  | transfer _ => refuse (.addressNotText "AssetTransferAddress")
  | written d => PlatformAddress.parse .null d

/-- The asset transfer address that is meant. -/
def toTransfer : AddressInput → Except Fault TransferAddress
  | transfer address => .ok address
  | platform _ => refuse (.addressNotText "PlatformAddress")
  | written d => TransferAddress.parse .null d

/-- The condition that an asset transfer address stands for, on the expected network. -/
def resolve (expected : Datum) : AddressInput → Except Fault SpendCondition
  | transfer address => do
    Network.check expected address.network
    return address.condition
  | platform _ => refuse (.addressNotText "PlatformAddress")
  | written d => do
    return (← TransferAddress.parse expected d).condition

end AddressInput

/-- The text of the address of a lock script hash and parameters. -/
def formatAddress (lockScriptHash : Bytes) (parameters : List Bytes) (network : Datum) :
    Except Fault String := do
  return (← TransferAddress.ofCondition lockScriptHash parameters network).toText

end ShardLedger
