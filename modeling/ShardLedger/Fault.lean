import ShardLedger.Rlp.Item
import ShardLedger.Script.Refusal
import ShardLedger.Text.SixDigits

/-!
# Faults

The causes for which an operation fails, and the text that each is reported with.
Most causes say what is malformed about the input.  A fault whose text would have
to show a number of more than 4300 digits has no text.
-/

namespace ShardLedger

/-- What is malformed about an input. -/
inductive Malformed where
  /-- Bytes that encode no item, or a document without an encoding. -/
  | rlp (flaw : Rlp.Flaw)
  /-- Bytes that are not a script. -/
  | script (flaw : Script.Flaw)
  /-- Text that is not hexadecimal. -/
  | notHex (name value : String)
  /-- A value of this kind where hexadecimal text belongs. -/
  | notHexText (name kind : String)
  /-- A byte string of the wrong length. -/
  | wrongLength (name : String) (expected actual : Nat)
  /-- A value that is not a list of bytes. -/
  | notByteList (name : String)
  /-- A value of this kind where a number belongs. -/
  | notInteger (name kind : String)
  /-- Text that is not a numeral. -/
  | notNumeral (name value : String)
  /-- A number below zero. -/
  | negative (name : String) (value : Int)
  /-- An amount that is not a positive number. -/
  | notPositive (value : Datum)
  /-- A field that is not a number from zero up. -/
  | notUnsigned (name : String) (value : Datum)
  /-- A field that is not a number of 16 bits. -/
  | notSixteenBits (name : String) (value : Datum)
  /-- A number too large for a field of this many bytes, or below zero. -/
  | tooWide (width : Int)
  /-- A value of this kind where a signature's text belongs. -/
  | signatureNotText (kind : String)
  /-- A signature's text with this many digits. -/
  | signatureLength (expected : Int) (digits : Nat)
  /-- A signature's text that is not hexadecimal. -/
  | signatureNotHex (value : String)
  /-- A private key that is zero or not below the order of the curve. -/
  | secretOutOfRange
  /-- Public key bytes that are no point of the curve. -/
  | notOnCurve
  /-- A signature from which its signer's key does not come back. -/
  | noRecoveryId
  /-- Signature scalars that are zero or not below the order of the curve. -/
  | scalarsOutOfRange
  /-- A recovery id other than zero and one. -/
  | badRecoveryId (value : Int)
  /-- A signature that belongs to no public key. -/
  | noPublicKey
  /-- A value that is no network id. -/
  | badNetworkId (value : Datum)
  /-- A value of this kind where an address belongs. -/
  | addressNotText (kind : String)
  /-- An address with upper-case letters. -/
  | addressNotLowered (address : String)
  /-- An address without room for its checksum. -/
  | addressTooShort (address : String)
  /-- An address with characters outside the alphabet. -/
  | addressCharacters (address : String)
  /-- An address whose checksum is wrong. -/
  | addressChecksum (address : String)
  /-- An address whose last word carries set bits that belong to no byte, or too many bits. -/
  | addressPadding (address : String)
  /-- An address that is no platform address. -/
  | notPlatformAddress (address : String)
  /-- A platform address with another version or length. -/
  | platformPayload (address : String)
  /-- An address that is no asset transfer address. -/
  | notTransferAddress (address : String)
  /-- An asset transfer address with another version, or without a type. -/
  | transferPayload (address : String)
  /-- An asset transfer address with a payload of the wrong length. -/
  | payloadLength (type : Nat) (actual : Nat)
  /-- A spend condition that no asset transfer address stands for. -/
  | noAddress
  /-- A script that is set a second time. -/
  | scriptAlreadySet (role : Script.Role)
  /-- No output at this position. -/
  | outputOutOfRange (index : Int)
  /-- A mint without a fixed amount where an asset is needed. -/
  | noFixedAmount
  /-- A transaction of no known type. -/
  | unknownTransaction (type : Datum)
  /-- A receiver that is not an account id. -/
  | receiverLength (actual : Nat)
  /-- A regular key that is not a public key. -/
  | regularKeyLength (actual : Nat)
  /-- An action of no known kind. -/
  | unknownAction (kind : Datum)
  /-- No entry at this position. -/
  | entryOutOfRange (index : Int) (count : Nat)
  /-- An entry that has a script already. -/
  | alreadySigned (index : Int)
  /-- An entry that does not carry the one parameter of a standard script. -/
  | oneParameter (index : Int) (count : Nat)
deriving DecidableEq

namespace Malformed

/-- What malformed input is reported as. -/
def message : Malformed → String
  | rlp flaw => flaw.message
  | script flaw => flaw.message
  | notHex name value => s!"{name} is not valid hex: {Text.quoted value}"
  | notHexText name kind => s!"{name} must be a hex string, got {kind}"
  | wrongLength name expected actual => s!"{name} must be {expected} bytes, got {actual}"
  | notByteList name => s!"{name} must be a list of byte values"
  | notInteger name kind => s!"{name} must be an integer, got {kind}"
  | notNumeral name value => s!"{name} is not an integer: {Text.quoted value}"
  | negative name value => s!"{name} must be non-negative, got {value}"
  | notPositive value => s!"amount must be a positive integer, got {value.describe}"
  | notUnsigned name value => s!"{name} must be a non-negative integer, got {value.describe}"
  | notSixteenBits name value => s!"{name} must fit in 16 bits, got {value.describe}"
  | tooWide width => s!"value does not fit in {width} bytes"
  | signatureNotText kind => s!"signature must be a string, got {kind}"
  | signatureLength expected digits =>
    s!"signature must be {expected} bytes, got {Text.halfInSixDigits digits}"
  | signatureNotHex value => s!"signature is not valid hex: {value}"
  | secretOutOfRange => "private key is out of range for secp256k1"
  | notOnCurve => "public key is not a point on secp256k1"
  | noRecoveryId => "unable to determine recovery id for signature"
  | scalarsOutOfRange => "signature scalars are out of range"
  | badRecoveryId value => s!"recovery id must be 0 or 1, got {value}"
  | noPublicKey => "no public key can be recovered from signature"
  | badNetworkId value => s!"network id must be 2 lowercase ASCII characters: {value.describe}"
  | addressNotText kind => s!"address must be a string, got {kind}"
  | addressNotLowered address => s!"address must be lowercase: {address}"
  | addressTooShort address => s!"address too short: {address}"
  | addressCharacters address => s!"address contains invalid characters: {address}"
  | addressChecksum address => s!"address checksum mismatch: {address}"
  | addressPadding address => s!"address has invalid padding: {address}"
  | notPlatformAddress address => s!"not a platform address: {address}"
  | platformPayload address => s!"invalid platform address payload: {address}"
  | notTransferAddress address => s!"not an asset transfer address: {address}"
  | transferPayload address => s!"invalid asset transfer address payload: {address}"
  | payloadLength type actual => s!"address type {type} needs a 32-byte payload, got {actual}"
  | noAddress => "lock script hash and parameters have no address representation"
  | scriptAlreadySet role => s!"{role.name} script is already set"
  | outputOutOfRange index => s!"output index {index} out of range"
  | noFixedAmount => "cannot realize an asset from a mint without an amount"
  | unknownTransaction type => s!"unknown asset transaction type: {type.describe}"
  | receiverLength actual => s!"receiver must be a 20-byte account id, got {actual}"
  | regularKeyLength actual => s!"regular key must be a 64-byte public key, got {actual}"
  | unknownAction kind => s!"unknown parcel action: {kind.describe}"
  | entryOutOfRange index count => s!"input index {index} out of range for {count} entries"
  | alreadySigned index => s!"input {index} already carries scripts"
  | oneParameter index count => s!"input {index} must carry exactly 1 parameter, got {count}"

/-- Whether the report can be written: every number in it is short enough. -/
def isWritable : Malformed → Bool
  | rlp (.negative value) => Text.Numeral.isWritable value
  | negative _ value => Text.Numeral.isWritable value
  | notPositive value => value.isWritable
  | notUnsigned _ value => value.isWritable
  | notSixteenBits _ value => value.isWritable
  | tooWide width => Text.Numeral.isWritable width
  | signatureLength expected _ => Text.Numeral.isWritable expected
  | badRecoveryId value => Text.Numeral.isWritable value
  | badNetworkId value => value.isWritable
  | outputOutOfRange index => Text.Numeral.isWritable index
  | unknownTransaction type => type.isWritable
  | unknownAction kind => kind.isWritable
  | entryOutOfRange index _ => Text.Numeral.isWritable index
  | alreadySigned index => Text.Numeral.isWritable index
  | oneParameter index _ => Text.Numeral.isWritable index
  | _ => true

end Malformed

/-- A field that may be left open while a parcel is put together, but not for good. -/
inductive RequiredField where
  | nonce
  | fee
  | signature
deriving DecidableEq

namespace RequiredField

/-- The name of the field. -/
def name : RequiredField → String
  | nonce => "nonce"
  | fee => "fee"
  | signature => "sig"

/-- What a missing field is reported as. -/
def message : RequiredField → String
  | nonce => "parcel nonce is required before encoding"
  | fee => "parcel fee is required before encoding"
  | signature => "signed parcel is missing its signature"

end RequiredField

/-- Why an operation is not authorized. -/
inductive Unauthorized where
  /-- An entry of a transaction whose proof is refused. -/
  | entry (burn : Bool) (index : Nat) (refusal : Script.Refusal)
  /-- An entry that is locked by another script. -/
  | otherLock (index : Int)
  /-- An output that can only be burnt. -/
  | burnOnly
  /-- A signature that belongs to another key. -/
  | otherSigner
deriving DecidableEq

namespace Unauthorized

/-- What missing authorization is reported as. -/
def message : Unauthorized → String
  | entry burn index refusal =>
    let kind := if burn then "burn" else "input"
    s!"{kind} {index} is not authorized: {refusal.message}"
  | otherLock index => s!"input {index} is not locked by this script"
  | burnOnly => "burn outputs can only be spent as burns; use sign_burn"
  | otherSigner => "key store returned a signature for a different key"

/-- The reason in short. -/
def reason : Unauthorized → String
  | entry _ _ refusal => refusal.message
  | otherLock _ => "lock-script-hash-mismatch"
  | burnOnly => "burn-only"
  | otherSigner => "signer-mismatch"

end Unauthorized

/-- A key that a store does not hold. -/
inductive MissingKey where
  /-- The private key of a public key. -/
  | secretOf (publicKey : Bytes)
  /-- A public key with this hash. -/
  | withHash (hash : Bytes)
deriving DecidableEq

/-- What a missing key is reported as. -/
def MissingKey.message : MissingKey → String
  | secretOf publicKey => s!"no private key for public key {Hex.shown publicKey}"
  | withHash hash => s!"no key for public key hash {Hex.shown hash}"

/-- Why an operation fails. -/
inductive Fault where
  /-- The input is malformed. -/
  | malformed (cause : Malformed)
  /-- A field has been left open. -/
  | missingField (field : RequiredField)
  /-- An asset transfer address of no known type. -/
  | unknownAddressType (type : Datum)
  /-- An address of another network than the expected one. -/
  | networkMismatch (expected : Datum) (actual : String)
  /-- A proof or a signature that does not authorize. -/
  | unauthorized (cause : Unauthorized)
  /-- A key that is not held. -/
  | keyNotFound (key : MissingKey)
  /-- An object without a field that it needs. -/
  | absentField (name : String)
  /-- A value that has no fields where an object belongs. -/
  | notAnObject
  /-- A value of a kind for which the operation has no meaning. -/
  | wrongKind
  /-- A value out of the range that its kind allows. -/
  | badValue
  /-- A number too large to be a size or to fit its field. -/
  | overflow
  /-- A number of too many digits to be written. -/
  | unwritable
  /-- A public key computation that ends in the point at infinity. -/
  | atInfinity
deriving DecidableEq

/-- What a fault is reported as, for those that have a text. -/
def Fault.message? : Fault → Option String
  | malformed cause => if cause.isWritable then some cause.message else none
  | missingField field => some field.message
  | unknownAddressType type =>
    if type.isWritable then some s!"unknown asset transfer address type: {type.plain}" else none
  | networkMismatch expected actual =>
    if expected.isWritable then
      some s!"address is for network {Text.quoted actual}, expected {expected.describe}"
    else none
  | unauthorized (.otherLock index) =>
    if Text.Numeral.isWritable index then some (Unauthorized.message (.otherLock index)) else none
  | unauthorized cause => some cause.message
  | keyNotFound key => some key.message
  | absentField name => some (Text.quoted name)
  | _ => none

/-- The code of a fault, for those that have one. -/
def Fault.code? : Fault → Option String
  | malformed _ => some "malformed-input"
  | missingField _ => some "missing-required-field"
  | unknownAddressType _ => some "unknown-address-type"
  | networkMismatch _ _ => some "network-mismatch"
  | unauthorized _ => some "authorization-failure"
  | keyNotFound _ => some "key-not-found"
  | _ => none

/-- Refuse malformed input. -/
def refuse {α : Type} (cause : Malformed) : Except Fault α :=
  .error (.malformed cause)

end ShardLedger
