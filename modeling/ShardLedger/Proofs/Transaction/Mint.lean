import Mathlib.Data.List.Forall2
import ShardLedger.Proofs.Fault
import ShardLedger.Proofs.Transaction.Encoding
import ShardLedger.Transaction.Basic

/-!
# What a mint's encoding commits to

A mint that describes its asset in text has an encoding, and two such mints are encoded
alike exactly when they agree in every field, where an address of a registrar counts for
its account only.  A mint and a transfer are never encoded alike.
-/

namespace ShardLedger

namespace Mint

/-- The asset is described in text, which holds no half of a surrogate pair. -/
def IsText (mint : Mint) : Prop :=
  ∃ text, mint.metadata = .text text

/-- Two mints are the same, but for the network of the registrar's address. -/
structure Agree (mint other : Mint) : Prop where
  networkId : mint.networkId = other.networkId
  shardId : mint.shardId = other.shardId
  worldId : mint.worldId = other.worldId
  metadata : mint.metadata = other.metadata
  output : mint.output = other.output
  registrar : mint.registrar.map PlatformAddress.accountId =
    other.registrar.map PlatformAddress.accountId
  nonce : mint.nonce = other.nonce

theorem item_of_text {mint : Mint} {text : String} (htext : mint.metadata = .text text) :
    mint.item = .ok (mint.itemWith (.text text)) := by
  rw [item, htext]
  rfl

theorem option_toList_map_inj {α β : Type} {f : α → β} (hf : ∀ x y, f x = f y ↔ x = y)
    {x y : Option α} : (x.map f).toList = (y.map f).toList ↔ x = y := by
  cases x <;> cases y <;> simp [hf]

theorem amountItem_inj {amount other : Option Amount} :
    (amount.map fun n => Rlp.Item.nat n.val).toList =
        (other.map fun n => Rlp.Item.nat n.val).toList ↔
      amount = other :=
  option_toList_map_inj fun _ _ => Rlp.Item.nat_inj.trans Subtype.ext_iff.symm

theorem registrarItem_eq_iff {registrar other : Option PlatformAddress} :
    (registrar.map fun a => Rlp.Item.bytes a.accountId.bytes).toList =
        (other.map fun a => Rlp.Item.bytes a.accountId.bytes).toList ↔
      registrar.map PlatformAddress.accountId = other.map PlatformAddress.accountId := by
  cases registrar <;> cases other <;> simp [FixedBytes.bytes_inj]

theorem itemWith_eq_iff {mint other : Mint} {metadata metadata' : Rlp.Item} :
    mint.itemWith metadata = other.itemWith metadata' ↔
      mint.networkId = other.networkId ∧ mint.shardId = other.shardId ∧
        mint.worldId = other.worldId ∧ metadata = metadata' ∧ mint.output = other.output ∧
        mint.registrar.map PlatformAddress.accountId =
          other.registrar.map PlatformAddress.accountId ∧
        mint.nonce = other.nonce := by
  have hnetwork : mint.networkId.text = other.networkId.text ↔
      mint.networkId = other.networkId := by
    rw [NetworkId.mk.injEq]
  have houtput : mint.output = other.output ↔
      mint.output.lockScriptHash = other.output.lockScriptHash ∧
        mint.output.parameters = other.output.parameters ∧
        mint.output.amount = other.output.amount := by
    rw [MintOutput.mk.injEq]
  have hparameters : mint.output.parameters.map Rlp.Item.bytes =
      other.output.parameters.map Rlp.Item.bytes ↔
        mint.output.parameters = other.output.parameters :=
    List.map_inj_right fun _ _ hitem => Rlp.Item.bytes.inj hitem
  simp only [itemWith, Rlp.Item.list.injEq, List.cons.injEq, Rlp.Item.text_inj, Rlp.Item.nat_inj,
    Rlp.Item.bytes.injEq, FixedBytes.bytes_inj, UInt16.toNat_inj, hnetwork, houtput, hparameters,
    amountItem_inj, registrarItem_eq_iff, true_and, and_true, and_assoc]

theorem IsText.exists_item {mint : Mint} (htext : mint.IsText) : ∃ item, mint.item = .ok item := by
  obtain ⟨text, hmetadata⟩ := htext
  exact ⟨_, item_of_text hmetadata⟩

theorem IsText.exists_hash {mint : Mint} (htext : mint.IsText) :
    ∃ hash, mint.hash = .ok hash := by
  obtain ⟨item, hitem⟩ := htext.exists_item
  exact ⟨_, by rw [Mint.hash, Mint.encode, hitem, map_ok, map_ok]⟩

theorem assetType_of_hash {mint : Mint} {hash : Digest} (hhash : mint.hash = .ok hash) :
    mint.assetType = .ok (.ofMint hash.bytes mint.shardId mint.worldId) := by
  rw [assetType, hhash, ok_bind, pure_eq_ok]

theorem mintedAsset_of_hash {mint : Mint} {amount : Amount} {hash : Digest}
    (hamount : mint.output.amount = some amount) (hhash : mint.hash = .ok hash) :
    mint.mintedAsset = .ok ⟨.ofMint hash.bytes mint.shardId mint.worldId,
      mint.output.lockScriptHash, mint.output.parameters, amount, hash, 0⟩ := by
  simp only [mintedAsset, hamount, hhash, ok_bind, pure_eq_ok]

theorem item_eq_iff_agree {mint other : Mint} (htext : mint.IsText) (hother : other.IsText) :
    mint.item = other.item ↔ mint.Agree other := by
  obtain ⟨text, hmetadata⟩ := htext
  obtain ⟨text', hmetadata'⟩ := hother
  have hsame : Rlp.Item.text text = .text text' ↔ mint.metadata = other.metadata := by
    rw [Rlp.Item.text_inj, hmetadata, hmetadata', Datum.text.injEq]
  rw [item_of_text hmetadata, item_of_text hmetadata', Except.ok.injEq, itemWith_eq_iff, hsame]
  constructor
  · rintro ⟨hnetwork, hshard, hworld, hmetadata, houtput, hregistrar, hnonce⟩
    exact ⟨hnetwork, hshard, hworld, hmetadata, houtput, hregistrar, hnonce⟩
  · rintro ⟨hnetwork, hshard, hworld, hmetadata, houtput, hregistrar, hnonce⟩
    exact ⟨hnetwork, hshard, hworld, hmetadata, houtput, hregistrar, hnonce⟩

end Mint

namespace Transaction

/-- Mints describe their assets in text that holds no half of a surrogate pair. -/
def IsText : Transaction → Prop
  | mint m => m.IsText
  | transfer _ => True

/-- Two transactions are the same in every part that is encoded. -/
inductive Agree : Transaction → Transaction → Prop
  | mint {m m' : Mint} (hmint : m.Agree m') : Agree (mint m) (mint m')
  | transfer {t t' : Transfer} (htransfer : t.Agree t') (hscripts : t.SameScripts t') :
      Agree (transfer t) (transfer t')

theorem IsText.exists_item {transaction : Transaction} (htext : transaction.IsText) :
    ∃ item, transaction.item = .ok item := by
  cases transaction with
  | mint m => exact Mint.IsText.exists_item htext
  | transfer t => exact ⟨_, rfl⟩

/-- The code in front tells a mint from a transfer. -/
theorem mint_item_ne_transfer_item {m : Mint} {t : Transfer} (htext : m.IsText) :
    m.item ≠ .ok t.item := by
  obtain ⟨text, hmetadata⟩ := htext
  rw [Mint.item_of_text hmetadata]
  intro hitem
  have hitems := Rlp.Item.list.inj (Except.ok.inj hitem)
  exact absurd (Rlp.Item.nat_inj.mp (List.cons.inj hitems).1) (by decide)

theorem item_eq_iff_agree {transaction other : Transaction} (htext : transaction.IsText)
    (hother : other.IsText) : transaction.item = other.item ↔ transaction.Agree other := by
  cases transaction with
  | mint m =>
      cases other with
      | mint m' =>
          refine (Mint.item_eq_iff_agree htext hother).trans ⟨.mint, ?_⟩
          rintro ⟨hmint⟩
          exact hmint
      | transfer t =>
          refine ⟨fun hitem => absurd hitem (mint_item_ne_transfer_item htext), ?_⟩
          rintro ⟨⟩
  | transfer t =>
      cases other with
      | mint m =>
          refine ⟨fun hitem => absurd hitem.symm (mint_item_ne_transfer_item hother), ?_⟩
          rintro ⟨⟩
      | transfer t' =>
          have hitem : Except.ok (ε := Fault) t.item = .ok t'.item ↔
              t.Agree t' ∧ t.SameScripts t' := by
            rw [Except.ok.injEq, Transfer.item_eq_iff_agree]
          refine hitem.trans ⟨fun hagree => .transfer hagree.1 hagree.2, ?_⟩
          rintro ⟨⟩
          next htransfer hscripts => exact ⟨htransfer, hscripts⟩

/-- Lists of transactions are encoded alike exactly when they agree one by one. -/
theorem items_eq_iff_agree {transactions others : List Transaction}
    (htext : ∀ t ∈ transactions, t.IsText) (hother : ∀ t ∈ others, t.IsText) :
    transactions.mapM item = others.mapM item ↔ List.Forall₂ Agree transactions others := by
  induction transactions generalizing others with
  | nil =>
      cases others with
      | nil => simp
      | cons other others =>
          obtain ⟨items, hitems⟩ := exists_mapM_eq_ok fun t ht => (hother t ht).exists_item
          obtain ⟨_, _, -, -, rfl⟩ := mapM_cons_eq_ok_iff.mp hitems
          rw [hitems]
          simp
  | cons transaction transactions ih =>
      obtain ⟨items, hitems⟩ := exists_mapM_eq_ok fun t ht => (htext t ht).exists_item
      obtain ⟨first, rest, hfirst, hrest, rfl⟩ := mapM_cons_eq_ok_iff.mp hitems
      cases others with
      | nil =>
          rw [hitems]
          simp
      | cons other others =>
          obtain ⟨items', hitems'⟩ := exists_mapM_eq_ok fun t ht => (hother t ht).exists_item
          obtain ⟨first', rest', hfirst', hrest', rfl⟩ := mapM_cons_eq_ok_iff.mp hitems'
          obtain ⟨htransaction, htransactions⟩ := List.forall_mem_cons.mp htext
          obtain ⟨hother, hothers⟩ := List.forall_mem_cons.mp hother
          have hhead := item_eq_iff_agree htransaction hother
          have htail := ih htransactions hothers
          rw [hfirst, hfirst', Except.ok.injEq] at hhead
          rw [hrest, hrest', Except.ok.injEq] at htail
          rw [hitems, hitems', List.forall₂_cons, Except.ok.injEq, List.cons.injEq, hhead, htail]

end Transaction

end ShardLedger
