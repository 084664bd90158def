import ShardLedger.Proofs.Rlp.NormalForm
import ShardLedger.Transaction.Transfer

/-!
# What a transfer's encoding commits to

Two transfers are encoded alike exactly when they agree in every part that is encoded.
Their signed messages leave out the scripts and what an out point records of its lock,
and nothing else, so that scripts can be filled in without spoiling a signature.
-/

namespace ShardLedger

/-- Lists have the same images under a function exactly when they have under two others that
together tell the same values apart. -/
theorem map_eq_map_iff_and {α β γ δ : Type} {f : α → β} {g : α → γ} {h : α → δ}
    (hparts : ∀ x y, f x = f y ↔ g x = g y ∧ h x = h y) {xs ys : List α} :
    xs.map f = ys.map f ↔ xs.map g = ys.map g ∧ xs.map h = ys.map h := by
  induction xs generalizing ys with
  | nil => cases ys <;> simp
  | cons x xs ih =>
      cases ys with
      | nil => simp
      | cons y ys =>
          simp only [List.map_cons, List.cons.injEq]
          rw [hparts x y, ih]
          exact and_and_and_comm

theorem FixedBytes.bytes_inj {n : Nat} {x y : FixedBytes n} : x.bytes = y.bytes ↔ x = y :=
  FixedBytes.ext_iff.symm

namespace OutPoint

/-- The part of an out point that is encoded. -/
def coin (point : OutPoint) : Digest × Nat × AssetType × Amount :=
  (point.transactionHash, point.index, point.assetType, point.amount)

theorem item_eq_iff {point other : OutPoint} :
    point.item = other.item ↔ point.coin = other.coin := by
  simp only [item, coin, Rlp.Item.list.injEq, List.cons.injEq, Rlp.Item.bytes.injEq,
    Rlp.Item.nat_inj, FixedBytes.bytes_inj, ← Subtype.ext_iff, Prod.mk.injEq, and_true]

end OutPoint

namespace Entry

/-- The part of an entry that is signed. -/
def coin (entry : Entry) : Digest × Nat × AssetType × Amount :=
  entry.prevOut.coin

/-- The scripts of an entry. -/
def scripts (entry : Entry) : Bytes × Bytes :=
  (entry.lockScript, entry.unlockScript)

theorem item_eq_iff {entry other : Entry} :
    entry.item = other.item ↔ entry.coin = other.coin ∧ entry.scripts = other.scripts := by
  simp only [item, coin, scripts, Rlp.Item.list.injEq, List.cons.injEq, OutPoint.item_eq_iff,
    Rlp.Item.bytes.injEq, Prod.mk.injEq, and_true]

theorem withoutScript_item_eq_iff {entry other : Entry} :
    entry.withoutScript.item = other.withoutScript.item ↔ entry.coin = other.coin := by
  rw [item_eq_iff]
  constructor
  · rintro ⟨hcoin, -⟩
    exact hcoin
  · intro hcoin
    exact ⟨hcoin, rfl⟩

theorem prevOut_of_setScript {role : Script.Role} {script : Bytes} {entry changed : Entry}
    (hset : entry.setScript role script = .ok changed) : changed.prevOut = entry.prevOut := by
  cases role with
  | lock =>
      rw [setScript, setLockScript] at hset
      split at hset
      · cases hset
      · cases hset
        rfl
  | unlock =>
      rw [setScript, setUnlockScript] at hset
      split at hset
      · cases hset
      · cases hset
        rfl

theorem prevOut_assignScript (role : Script.Role) (script : Bytes) (entry : Entry) :
    (entry.assignScript role script).prevOut = entry.prevOut := by
  cases role with
  | lock => rfl
  | unlock => rfl

end Entry

theorem Output.item_inj {output other : Output} : output.item = other.item ↔ output = other := by
  have hparameters : ∀ xs ys : List Bytes,
      xs.map Rlp.Item.bytes = ys.map Rlp.Item.bytes ↔ xs = ys := by
    intro xs ys
    exact List.map_inj_right fun _ _ hitem => Rlp.Item.bytes.inj hitem
  obtain ⟨lockScriptHash, parameters, assetType, amount⟩ := output
  obtain ⟨lockScriptHash', parameters', assetType', amount'⟩ := other
  simp only [item, Rlp.Item.list.injEq, List.cons.injEq, Rlp.Item.bytes.injEq, hparameters,
    Rlp.Item.nat_inj, FixedBytes.bytes_inj, ← Subtype.ext_iff, Output.mk.injEq, and_true]

namespace Transfer

/-- The parts of two transfers that are signed are the same. -/
structure Agree (transfer other : Transfer) : Prop where
  networkId : transfer.networkId = other.networkId
  nonce : transfer.nonce = other.nonce
  outputs : transfer.outputs = other.outputs
  burns : transfer.burns.map Entry.coin = other.burns.map Entry.coin
  inputs : transfer.inputs.map Entry.coin = other.inputs.map Entry.coin

/-- The scripts of two transfers are the same, entry by entry. -/
structure SameScripts (transfer other : Transfer) : Prop where
  burns : transfer.burns.map Entry.scripts = other.burns.map Entry.scripts
  inputs : transfer.inputs.map Entry.scripts = other.inputs.map Entry.scripts

theorem item_eq_iff {transfer other : Transfer} :
    transfer.item = other.item ↔
      transfer.networkId = other.networkId ∧ transfer.nonce = other.nonce ∧
        transfer.outputs = other.outputs ∧
        transfer.burns.map Entry.item = other.burns.map Entry.item ∧
        transfer.inputs.map Entry.item = other.inputs.map Entry.item := by
  have houtputs : transfer.outputs.map Output.item = other.outputs.map Output.item ↔
      transfer.outputs = other.outputs :=
    List.map_inj_right fun _ _ hitem => Output.item_inj.mp hitem
  have hnetwork : transfer.networkId.text = other.networkId.text ↔
      transfer.networkId = other.networkId := by
    rw [NetworkId.mk.injEq]
  simp only [item, Rlp.Item.list.injEq, List.cons.injEq, Rlp.Item.text_inj, Rlp.Item.nat_inj,
    houtputs, hnetwork, true_and, and_true]
  constructor
  · rintro ⟨hnetwork, hburns, hinputs, houtputs, hnonce⟩
    exact ⟨hnetwork, hnonce, houtputs, hburns, hinputs⟩
  · rintro ⟨hnetwork, hnonce, houtputs, hburns, hinputs⟩
    exact ⟨hnetwork, hburns, hinputs, houtputs, hnonce⟩

theorem withoutScript_item_eq_iff {transfer other : Transfer} :
    transfer.withoutScript.item = other.withoutScript.item ↔ transfer.Agree other := by
  have hcoins : ∀ xs ys : List Entry,
      (xs.map Entry.withoutScript).map Entry.item = (ys.map Entry.withoutScript).map Entry.item ↔
        xs.map Entry.coin = ys.map Entry.coin := by
    intro xs ys
    rw [List.map_map, List.map_map]
    refine (map_eq_map_iff_and fun entry entry' => ?_).trans (and_self_iff)
    exact Entry.withoutScript_item_eq_iff.trans and_self_iff.symm
  rw [item_eq_iff]
  simp only [withoutScript, hcoins]
  constructor
  · rintro ⟨hnetwork, hnonce, houtputs, hburns, hinputs⟩
    exact ⟨hnetwork, hnonce, houtputs, hburns, hinputs⟩
  · rintro ⟨hnetwork, hnonce, houtputs, hburns, hinputs⟩
    exact ⟨hnetwork, hnonce, houtputs, hburns, hinputs⟩

theorem item_eq_iff_agree {transfer other : Transfer} :
    transfer.item = other.item ↔ transfer.Agree other ∧ transfer.SameScripts other := by
  rw [item_eq_iff, map_eq_map_iff_and fun _ _ => Entry.item_eq_iff,
    map_eq_map_iff_and fun _ _ => Entry.item_eq_iff]
  constructor
  · rintro ⟨hnetwork, hnonce, houtputs, ⟨hburns, hburnScripts⟩, hinputs, hinputScripts⟩
    exact ⟨⟨hnetwork, hnonce, houtputs, hburns, hinputs⟩, ⟨hburnScripts, hinputScripts⟩⟩
  · rintro ⟨⟨hnetwork, hnonce, houtputs, hburns, hinputs⟩, ⟨hburnScripts, hinputScripts⟩⟩
    exact ⟨hnetwork, hnonce, houtputs, ⟨hburns, hburnScripts⟩, hinputs, hinputScripts⟩

/-! ## Filling in scripts -/

theorem itemAt?_eq_some {α : Type} {xs : List α} {index : Int} {x : α}
    (hitem : itemAt? xs index = some x) : xs[index.toNat]? = some x := by
  cases index with
  | ofNat i => exact hitem
  | negSucc i => cases hitem

theorem map_set_eq_self {α β : Type} {f : α → β} {xs : List α} {i : Nat} {x y : α}
    (hx : xs[i]? = some x) (hy : f y = f x) : (xs.set i y).map f = xs.map f := by
  obtain ⟨hi, rfl⟩ := List.getElem?_eq_some_iff.mp hx
  have hi' : i < (xs.map f).length := by
    rw [List.length_map]
    exact hi
  have hget : (xs.map f)[i] = f xs[i] := List.getElem_map f
  rw [List.map_set, hy, ← hget, List.set_getElem_self]

theorem withoutScript_setEntries {transfer : Transfer} {list : EntryList} {entries : List Entry}
    (hentries : entries.map Entry.withoutScript =
      (transfer.entries list).map Entry.withoutScript) :
    (transfer.setEntries list entries).withoutScript = transfer.withoutScript := by
  cases list with
  | inputs => simp only [setEntries, withoutScript, hentries, Transfer.entries]
  | burns => simp only [setEntries, withoutScript, hentries, Transfer.entries]

/-- A change that keeps the output an entry refers to leaves the signed message as it is. -/
theorem withoutScript_eq_of_change {transfer changed : Transfer} {list : EntryList}
    {index : Int} {change : Entry → Except Fault Entry}
    (hkeeps : ∀ entry entry', change entry = .ok entry' → entry'.prevOut = entry.prevOut)
    (hchange : changeEntry? transfer list index change = some (.ok changed)) :
    changed.withoutScript = transfer.withoutScript := by
  obtain ⟨entry, hentry, hresult⟩ := Option.bind_eq_some_iff.mp hchange
  cases hentry' : change entry with
  | error fault =>
      rw [hentry'] at hresult
      cases hresult
  | ok entry' =>
      rw [hentry'] at hresult
      cases hresult
      have hsame : entry'.withoutScript = entry.withoutScript := by
        rw [Entry.withoutScript, hkeeps entry entry' hentry', Entry.withoutScript]
      exact withoutScript_setEntries (map_set_eq_self (itemAt?_eq_some hentry) hsame)

/-! ## The signed message -/

/-- The bytes hashed for signing commit to the whole transfer except scripts, and the full encoding
to the scripts as well. -/
theorem encode_commits :
    (∀ transfer : Transfer,
      transfer.hashWithoutScript = contentHash transfer.withoutScript.encode) ∧
    (∀ transfer other : Transfer, transfer.withoutScript.encode.length < 2 ^ 64 →
      (transfer.withoutScript.encode = other.withoutScript.encode ↔ transfer.Agree other)) ∧
    (∀ (transfer changed : Transfer) list index role script,
      changeEntry? transfer list index (Entry.setScript role script) = some (.ok changed) ∨
        changeEntry? transfer list index (fun entry => .ok (entry.assignScript role script)) =
          some (.ok changed) →
      changed.withoutScript.encode = transfer.withoutScript.encode) ∧
    (∀ transfer other : Transfer, transfer.encode.length < 2 ^ 64 →
      (transfer.encode = other.encode ↔
        transfer.Agree other ∧ transfer.SameScripts other)) := by
  refine ⟨fun transfer => rfl, ?_, ?_, ?_⟩
  · intro transfer other hlength
    exact (Rlp.Item.encode_inj hlength).trans withoutScript_item_eq_iff
  · intro transfer changed list index role script hchange
    have hsame : changed.withoutScript = transfer.withoutScript := by
      rcases hchange with hset | hassign
      · exact withoutScript_eq_of_change (fun _ _ => Entry.prevOut_of_setScript) hset
      · refine withoutScript_eq_of_change (fun entry entry' hentry => ?_) hassign
        cases hentry
        exact Entry.prevOut_assignScript role script entry
    rw [hsame]
  · intro transfer other hlength
    exact (Rlp.Item.encode_inj hlength).trans item_eq_iff_agree

/-- A transfer of one input under a lock script. -/
def oneInput (script : Bytes) : Transfer where
  inputs := [⟨⟨.zero 32, 0, .zero 32, ⟨1, Nat.one_pos⟩, none, none⟩, script, []⟩]
  networkId := .standard
  nonce := 0

theorem encode_commits_oneInput :
    (oneInput [1]).withoutScript.encode = (oneInput []).withoutScript.encode ∧
      (oneInput [1]).encode ≠ (oneInput []).encode := by
  obtain ⟨-, -, hkept, hfull⟩ := encode_commits
  constructor
  · have hset : changeEntry? (oneInput []) .inputs 0 (Entry.setScript .lock [1]) =
        some (.ok (oneInput [1])) := rfl
    exact hkept _ _ _ _ _ _ (Or.inl hset)
  · intro hencode
    have hlength : (oneInput [1]).encode.length < 2 ^ 64 := by decide +kernel
    obtain ⟨-, hscripts⟩ := (hfull _ _ hlength).mp hencode
    exact absurd hscripts.inputs (by decide)

end Transfer

end ShardLedger
