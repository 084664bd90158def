import ShardLedger.Proofs.Address.Frame
import ShardLedger.Transaction.Basic

/-!
# Documents of transactions

Every part of a transaction is read back from its document as it was, whether its
optional fields are absent, empty or filled.
-/

namespace ShardLedger

theorem OutPoint.ofDatum_toDatum (point : OutPoint) : ofDatum point.toDatum = .ok point := by
  obtain ⟨transactionHash, index, assetType, amount, lockScriptHash, parameters⟩ := point
  cases lockScriptHash with
  | none =>
      cases parameters with
      | none => simp [ofDatum, toDatum, commonFields]
      | some ps => simp [ofDatum, toDatum, commonFields]
  | some hash =>
      cases parameters with
      | none => simp [ofDatum, toDatum, commonFields]
      | some ps => simp [ofDatum, toDatum, commonFields]

theorem Entry.ofDatum_toDatum (entry : Entry) : ofDatum entry.toDatum = .ok entry := by
  simp [ofDatum, toDatum, Datum.fieldOr, OutPoint.ofDatum_toDatum]

theorem Output.ofDatum_toDatum (output : Output) : ofDatum output.toDatum = .ok output := by
  simp [ofDatum, toDatum]

theorem Asset.ofDatum_toDatum (asset : Asset) : ofDatum asset.toDatum = .ok asset := by
  simp [ofDatum, toDatum]

theorem Transfer.ofDatum_toDatum (transfer : Transfer) :
    ofDatum transfer.toDatum = .ok transfer := by
  have hburns := mapM_map_eq_ok fun entry (_ : entry ∈ transfer.burns) => entry.ofDatum_toDatum
  have hinputs := mapM_map_eq_ok fun entry (_ : entry ∈ transfer.inputs) => entry.ofDatum_toDatum
  have houtputs := mapM_map_eq_ok fun output (_ : output ∈ transfer.outputs) =>
    output.ofDatum_toDatum
  simp [ofDatum, toDatum, Datum.fieldOr, hburns, hinputs, houtputs, NetworkId.ofDatum_text]

theorem PlatformAddress.orNull_read (address : Option PlatformAddress) :
    (Datum.present? (orNull address)).mapM (parse .null) = .ok address := by
  cases address with
  | none => rfl
  | some address => simp [orNull, parse_text]

theorem MintOutput.exists_amount_read (output : MintOutput) :
    ∃ number, Datum.optionalUnsigned "amount" (Datum.present? output.amountDatum) = .ok number ∧
      (number.mapM fun n : Nat => (Datum.int n).amount) = .ok output.amount := by
  obtain ⟨lockScriptHash, parameters, amount⟩ := output
  cases amount with
  | none => exact ⟨none, rfl, rfl⟩
  | some amount =>
      refine ⟨some amount.val, Datum.optionalUnsigned_numberOrNull "amount" (some amount.val), ?_⟩
      simp

theorem Mint.ofDatum_toDatum (mint : Mint) : ofDatum mint.toDatum = .ok mint := by
  obtain ⟨number, hnumber, hamount⟩ := mint.output.exists_amount_read
  simp [ofDatum, toDatum, Datum.fieldOr, MintOutput.toDatum, hnumber, hamount,
    PlatformAddress.orNull_read, build, NetworkId.ofDatum_text]

theorem AssetScheme.ofDatum_toDatum {scheme : AssetScheme}
    (hamount : scheme.amount.IsNumberOrNull) : ofDatum scheme.toDatum = .ok scheme := by
  obtain ⟨assetType, metadata, amount, registrar, networkId⟩ := scheme
  obtain ⟨number, hnumber⟩ := hamount.exists_eq
  simp only at hnumber
  subst hnumber
  simp [ofDatum, toDatum, PlatformAddress.orNull_read]

theorem Transaction.ofDatum_toDatum (transaction : Transaction) :
    ofDatum transaction.toDatum = .ok transaction := by
  cases transaction with
  | mint mint =>
      have hread := mint.ofDatum_toDatum
      rw [Mint.toDatum] at hread
      simp [ofDatum, toDatum, Mint.toDatum, Datum.fieldOr, hread]
  | transfer transfer =>
      have hread := transfer.ofDatum_toDatum
      rw [Transfer.toDatum] at hread
      simp [ofDatum, toDatum, Transfer.toDatum, Datum.fieldOr, hread]

end ShardLedger
