import ShardLedger.Address.Bech32
import ShardLedger.Address.Frame
import ShardLedger.Address.Network
import ShardLedger.Address.Platform
import ShardLedger.Address.Transfer
import ShardLedger.Bytes.Basic
import ShardLedger.Bytes.BigEndian
import ShardLedger.Bytes.Hex
import ShardLedger.Client.Basic
import ShardLedger.Curve.Basic
import ShardLedger.Curve.Ecdsa
import ShardLedger.Curve.Modular
import ShardLedger.Document.Basic
import ShardLedger.Document.Field
import ShardLedger.Document.Json
import ShardLedger.Fault
import ShardLedger.Hash.Blake2b
import ShardLedger.Hash.Ripemd160
import ShardLedger.Hash.Sha256
import ShardLedger.Hash.Words
import ShardLedger.Keyed
import ShardLedger.Keys.Authorizer
import ShardLedger.Keys.Ring
import ShardLedger.Keys.Service
import ShardLedger.Number.Binary64
import ShardLedger.Parcel.Action
import ShardLedger.Parcel.Basic
import ShardLedger.Parcel.Signed
import ShardLedger.Parcel.Signing
import ShardLedger.Proofs.Address.Acceptance
import ShardLedger.Proofs.Address.Bech32
import ShardLedger.Proofs.Address.Detection
import ShardLedger.Proofs.Address.Frame
import ShardLedger.Proofs.Address.Transfer
import ShardLedger.Proofs.Bytes.BigEndian
import ShardLedger.Proofs.Bytes.Hex
import ShardLedger.Proofs.Bytes.Spelling
import ShardLedger.Proofs.Curve.Group
import ShardLedger.Proofs.Curve.Modular
import ShardLedger.Proofs.Curve.Order
import ShardLedger.Proofs.Curve.Prime
import ShardLedger.Proofs.Curve.Scaled
import ShardLedger.Proofs.Document.ByteString
import ShardLedger.Proofs.Document.Field
import ShardLedger.Proofs.Fault
import ShardLedger.Proofs.Keyed
import ShardLedger.Proofs.Keys.History
import ShardLedger.Proofs.Keys.Ring
import ShardLedger.Proofs.Keys.Signing
import ShardLedger.Proofs.Keys.SigningOrder
import ShardLedger.Proofs.Keys.Spending
import ShardLedger.Proofs.Keys.WrittenOnce
import ShardLedger.Proofs.Parcel.Document
import ShardLedger.Proofs.Parcel.Encoding
import ShardLedger.Proofs.Parcel.Signing
import ShardLedger.Proofs.Rlp.Canonical
import ShardLedger.Proofs.Rlp.Header
import ShardLedger.Proofs.Rlp.Integer
import ShardLedger.Proofs.Rlp.NormalForm
import ShardLedger.Proofs.Rlp.Progress
import ShardLedger.Proofs.Rlp.Reading
import ShardLedger.Proofs.Rlp.Scan
import ShardLedger.Proofs.Rlp.SelfDelimiting
import ShardLedger.Proofs.Script.Bounds
import ShardLedger.Proofs.Script.Concatenation
import ShardLedger.Proofs.Script.Decoding
import ShardLedger.Proofs.Script.Depth
import ShardLedger.Proofs.Script.Exclusion
import ShardLedger.Proofs.Script.Execution
import ShardLedger.Proofs.Script.Grammar
import ShardLedger.Proofs.Script.Infinity
import ShardLedger.Proofs.Script.Limits
import ShardLedger.Proofs.Script.Malleability
import ShardLedger.Proofs.Script.Progress
import ShardLedger.Proofs.Script.Pushes
import ShardLedger.Proofs.Script.Run
import ShardLedger.Proofs.Script.Standard
import ShardLedger.Proofs.Settings.Precedence
import ShardLedger.Proofs.Signature.Attempt
import ShardLedger.Proofs.Signature.Codec
import ShardLedger.Proofs.Signature.Complement
import ShardLedger.Proofs.Signature.Infinity
import ShardLedger.Proofs.Signature.Recovery
import ShardLedger.Proofs.Signature.Strictness
import ShardLedger.Proofs.Signature.Verification
import ShardLedger.Proofs.Signature.Written
import ShardLedger.Proofs.Text.Numeral
import ShardLedger.Proofs.Transaction.Authorization
import ShardLedger.Proofs.Transaction.ByteFields
import ShardLedger.Proofs.Transaction.Document
import ShardLedger.Proofs.Transaction.Encoding
import ShardLedger.Proofs.Transaction.Entries
import ShardLedger.Proofs.Transaction.Infinity
import ShardLedger.Proofs.Transaction.Isolation
import ShardLedger.Proofs.Transaction.Metadata
import ShardLedger.Proofs.Transaction.Mint
import ShardLedger.Proofs.Transaction.MintedType
import ShardLedger.Rlp.Decoding
import ShardLedger.Rlp.Item
import ShardLedger.Script.Execution
import ShardLedger.Script.Instruction
import ShardLedger.Script.Limits
import ShardLedger.Script.Machine
import ShardLedger.Script.Refusal
import ShardLedger.Script.Standard
import ShardLedger.Settings.Basic
import ShardLedger.Settings.Environment
import ShardLedger.Settings.Issue
import ShardLedger.Settings.Unchecked
import ShardLedger.Settings.Value
import ShardLedger.Signature.Basic
import ShardLedger.Signature.Key
import ShardLedger.Signature.Nonce
import ShardLedger.Text.Digit
import ShardLedger.Text.LowerCase
import ShardLedger.Text.Numeral
import ShardLedger.Text.Printable
import ShardLedger.Text.Quoted
import ShardLedger.Text.SixDigits
import ShardLedger.Transaction.Asset
import ShardLedger.Transaction.AssetType
import ShardLedger.Transaction.Authorization
import ShardLedger.Transaction.Basic
import ShardLedger.Transaction.Entry
import ShardLedger.Transaction.Mint
import ShardLedger.Transaction.OutPoint
import ShardLedger.Transaction.Output
import ShardLedger.Transaction.Transfer
