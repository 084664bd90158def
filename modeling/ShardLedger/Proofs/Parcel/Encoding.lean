import ShardLedger.Parcel.Signed
import ShardLedger.Proofs.Signature.Written
import ShardLedger.Proofs.Transaction.Mint

/-!
# What a parcel's encoding commits to

Two parcels are encoded alike exactly when they agree in their nonces, fees, networks and
actions.  An action is told by its code, and agrees with another one up to the networks of
the addresses in it and what its transactions leave out of their encodings.  A signed
parcel adds its signature.  The four kinds of things that are hashed differ in the number
of their items, so that none of them passes for another one.
-/

namespace ShardLedger

/-! ## Actions -/

namespace Action

/-- The transactions of an action describe their assets in text. -/
def IsText : Action → Prop
  | changeShardState transactions => ∀ t ∈ transactions, t.IsText
  | _ => True

/-- Two actions are the same in every part that is encoded. -/
inductive Agree : Action → Action → Prop
  | changeShardState {transactions others : List Transaction}
      (htransactions : List.Forall₂ Transaction.Agree transactions others) :
      Agree (changeShardState transactions) (changeShardState others)
  | payment (receiver : AccountId) (amount : Nat) :
      Agree (payment receiver amount) (payment receiver amount)
  | setRegularKey (key : PublicKey) : Agree (setRegularKey key) (setRegularKey key)
  | createShard : Agree createShard createShard
  | setShardOwners (shardId : UInt16) {owners others : List PlatformAddress}
      (howners : owners.map PlatformAddress.accountId = others.map PlatformAddress.accountId) :
      Agree (setShardOwners shardId owners) (setShardOwners shardId others)
  | setShardUsers (shardId : UInt16) {users others : List PlatformAddress}
      (husers : users.map PlatformAddress.accountId = others.map PlatformAddress.accountId) :
      Agree (setShardUsers shardId users) (setShardUsers shardId others)

theorem Agree.code_eq {action other : Action} (hagree : action.Agree other) :
    action.code = other.code := by
  cases hagree <;> rfl

theorem accountItems_eq_iff {addresses others : List PlatformAddress} :
    (addresses.map fun a => Rlp.Item.bytes a.accountId.bytes) =
        (others.map fun a => Rlp.Item.bytes a.accountId.bytes) ↔
      addresses.map PlatformAddress.accountId = others.map PlatformAddress.accountId := by
  have hitems : ∀ xs : List PlatformAddress, (xs.map fun a => Rlp.Item.bytes a.accountId.bytes) =
      (xs.map PlatformAddress.accountId).map fun id => Rlp.Item.bytes id.bytes := by
    intro xs
    rw [List.map_map]
    rfl
  rw [hitems, hitems]
  exact List.map_inj_right fun _ _ hitem => FixedBytes.bytes_inj.mp (Rlp.Item.bytes.inj hitem)

theorem IsText.exists_contents {action : Action} (htext : action.IsText) :
    ∃ contents, action.contents = .ok contents := by
  cases action with
  | changeShardState transactions =>
      obtain ⟨items, hitems⟩ := exists_mapM_eq_ok fun t ht => (htext t ht).exists_item
      exact ⟨[.list items], by rw [contents, hitems]; rfl⟩
  | payment | setRegularKey | createShard | setShardOwners | setShardUsers => exact ⟨_, rfl⟩

theorem changeShardState_contents_eq_iff {transactions others : List Transaction}
    (htext : ∀ t ∈ transactions, t.IsText) (hother : ∀ t ∈ others, t.IsText) :
    (changeShardState transactions).contents = (changeShardState others).contents ↔
      List.Forall₂ Transaction.Agree transactions others := by
  rw [← Transaction.items_eq_iff_agree htext hother, contents, contents]
  obtain ⟨items, hitems⟩ := exists_mapM_eq_ok fun t ht => (htext t ht).exists_item
  obtain ⟨items', hitems'⟩ := exists_mapM_eq_ok fun t ht => (hother t ht).exists_item
  simp [hitems, hitems']

/-- Actions of the same code have the same contents exactly when they agree. -/
theorem contents_eq_iff_agree {action other : Action} (htext : action.IsText)
    (hother : other.IsText) (hcode : action.code = other.code) :
    action.contents = other.contents ↔ action.Agree other := by
  -- Both actions are of one kind, because the codes of two kinds differ.
  cases action <;> cases other <;> simp only [code, Nat.reduceEqDiff] at hcode
  case changeShardState.changeShardState transactions others =>
    rw [changeShardState_contents_eq_iff htext hother]
    refine ⟨.changeShardState, ?_⟩
    rintro ⟨⟩
    assumption
  case payment.payment receiver amount receiver' amount' =>
    simp only [contents, Except.ok.injEq, List.cons.injEq, Rlp.Item.bytes.injEq,
      FixedBytes.bytes_inj, Rlp.Item.nat_inj, and_true]
    constructor
    · rintro ⟨rfl, rfl⟩
      exact .payment receiver amount
    · rintro ⟨⟩
      exact ⟨rfl, rfl⟩
  case setRegularKey.setRegularKey key key' =>
    simp only [contents, Except.ok.injEq, List.cons.injEq, Rlp.Item.bytes.injEq,
      FixedBytes.bytes_inj, and_true]
    constructor
    · rintro rfl
      exact .setRegularKey key
    · rintro ⟨⟩
      rfl
  case createShard.createShard => exact ⟨fun _ => .createShard, fun _ => rfl⟩
  case setShardOwners.setShardOwners shardId owners shardId' others =>
    simp only [contents, Except.ok.injEq, List.cons.injEq, Rlp.Item.list.injEq,
      accountItems_eq_iff, Rlp.Item.nat_inj, UInt16.toNat_inj, and_true]
    constructor
    · rintro ⟨rfl, howners⟩
      exact .setShardOwners shardId howners
    · rintro ⟨⟩
      exact ⟨rfl, by assumption⟩
  case setShardUsers.setShardUsers shardId users shardId' others =>
    simp only [contents, Except.ok.injEq, List.cons.injEq, Rlp.Item.list.injEq,
      accountItems_eq_iff, Rlp.Item.nat_inj, UInt16.toNat_inj, and_true]
    constructor
    · rintro ⟨rfl, husers⟩
      exact .setShardUsers shardId husers
    · rintro ⟨⟩
      exact ⟨rfl, by assumption⟩

theorem item_of_contents {action : Action} {contents : List Rlp.Item}
    (hcontents : action.contents = .ok contents) :
    action.item = .ok (.list (.nat action.code :: contents)) := by
  rw [item, hcontents]
  rfl

theorem IsText.exists_item {action : Action} (htext : action.IsText) :
    ∃ item, action.item = .ok item := by
  obtain ⟨contents, hcontents⟩ := htext.exists_contents
  exact ⟨_, item_of_contents hcontents⟩

theorem item_eq_iff_agree {action other : Action} (htext : action.IsText)
    (hother : other.IsText) : action.item = other.item ↔ action.Agree other := by
  obtain ⟨contents, hcontents⟩ := htext.exists_contents
  obtain ⟨contents', hcontents'⟩ := hother.exists_contents
  have hitem : action.item = other.item ↔
      action.code = other.code ∧ action.contents = other.contents := by
    rw [item_of_contents hcontents, item_of_contents hcontents', hcontents, hcontents']
    simp only [Except.ok.injEq, Rlp.Item.list.injEq, List.cons.injEq, Rlp.Item.nat_inj]
  rw [hitem]
  constructor
  · rintro ⟨hcode, hsame⟩
    exact (contents_eq_iff_agree htext hother hcode).mp hsame
  · intro hagree
    exact ⟨hagree.code_eq, (contents_eq_iff_agree htext hother hagree.code_eq).mpr hagree⟩

end Action

/-! ## Parcels -/

namespace Parcel

/-- The nonce and the fee have been set. -/
def IsSettled (parcel : Parcel) : Prop :=
  ∃ nonce fee, parcel.nonce = some nonce ∧ parcel.fee = some fee

/-- The transactions in a parcel describe their assets in text. -/
def IsText (parcel : Parcel) : Prop :=
  parcel.action.IsText

/-- Two parcels are the same in every part that is encoded. -/
structure Agree (parcel other : Parcel) : Prop where
  nonce : parcel.nonce = other.nonce
  fee : parcel.fee = other.fee
  networkId : parcel.networkId = other.networkId
  action : parcel.action.Agree other.action

theorem settled_eq_ok_iff {parcel : Parcel} {nonce fee : Nat} :
    parcel.settled = .ok (nonce, fee) ↔ parcel.nonce = some nonce ∧ parcel.fee = some fee := by
  unfold settled
  cases parcel.nonce <;> cases parcel.fee <;> simp

theorem itemWith_eq_ok_iff {parcel : Parcel} {nonce fee : Nat} {further : List Rlp.Item}
    {item : Rlp.Item} :
    parcel.itemWith nonce fee further = .ok item ↔
      ∃ action, parcel.action.item = .ok action ∧
        item = .list ([.nat nonce, .nat fee, .text parcel.networkId.text, action] ++ further) := by
  rw [itemWith, bind_eq_ok_iff]
  simp only [pure_eq_ok, Except.ok.injEq]
  constructor
  · rintro ⟨action, haction, rfl⟩
    exact ⟨action, haction, rfl⟩
  · rintro ⟨action, haction, rfl⟩
    exact ⟨action, haction, rfl⟩

theorem item_eq_ok_iff {parcel : Parcel} {item : Rlp.Item} :
    parcel.item = .ok item ↔
      ∃ nonce fee, parcel.nonce = some nonce ∧ parcel.fee = some fee ∧
        parcel.itemWith nonce fee [] = .ok item := by
  rw [Parcel.item, bind_eq_ok_iff]
  constructor
  · rintro ⟨⟨nonce, fee⟩, hsettled, hitem⟩
    obtain ⟨hnonce, hfee⟩ := settled_eq_ok_iff.mp hsettled
    exact ⟨nonce, fee, hnonce, hfee, hitem⟩
  · rintro ⟨nonce, fee, hnonce, hfee, hitem⟩
    exact ⟨(nonce, fee), settled_eq_ok_iff.mpr ⟨hnonce, hfee⟩, hitem⟩

theorem encode_eq_ok_iff {parcel : Parcel} {bytes : Bytes} :
    parcel.encode = .ok bytes ↔ ∃ item, parcel.item = .ok item ∧ item.encode = bytes :=
  map_eq_ok_iff

theorem IsText.exists_itemWith {parcel : Parcel} (htext : parcel.IsText) (nonce fee : Nat)
    (further : List Rlp.Item) : ∃ item, parcel.itemWith nonce fee further = .ok item := by
  obtain ⟨action, haction⟩ := Action.IsText.exists_item htext
  exact ⟨_, itemWith_eq_ok_iff.mpr ⟨action, haction, rfl⟩⟩

theorem exists_encode {parcel : Parcel} (hsettled : parcel.IsSettled) (htext : parcel.IsText) :
    ∃ bytes, parcel.encode = .ok bytes := by
  obtain ⟨nonce, fee, hnonce, hfee⟩ := hsettled
  obtain ⟨item, hwith⟩ := htext.exists_itemWith nonce fee []
  exact ⟨_, encode_eq_ok_iff.mpr ⟨_, item_eq_ok_iff.mpr ⟨nonce, fee, hnonce, hfee, hwith⟩, rfl⟩⟩

/-- With as many further items each, two parcels are encoded alike exactly when they agree and the
further items are the same. -/
theorem itemWith_inj {parcel other : Parcel} (htext : parcel.IsText) (hother : other.IsText)
    {nonce fee nonce' fee' : Nat} (hnonce : parcel.nonce = some nonce)
    (hfee : parcel.fee = some fee) (hnonce' : other.nonce = some nonce')
    (hfee' : other.fee = some fee') {further further' : List Rlp.Item} {item item' : Rlp.Item}
    (hitem : parcel.itemWith nonce fee further = .ok item)
    (hitem' : other.itemWith nonce' fee' further' = .ok item') :
    item = item' ↔ parcel.Agree other ∧ further = further' := by
  obtain ⟨action, haction, rfl⟩ := itemWith_eq_ok_iff.mp hitem
  obtain ⟨action', haction', rfl⟩ := itemWith_eq_ok_iff.mp hitem'
  have hactions : action = action' ↔ parcel.action.Agree other.action := by
    rw [← Action.item_eq_iff_agree htext hother, haction, haction', Except.ok.injEq]
  have hnetwork : parcel.networkId.text = other.networkId.text ↔
      parcel.networkId = other.networkId := by
    rw [NetworkId.mk.injEq]
  simp only [Rlp.Item.list.injEq, List.cons_append, List.nil_append, List.cons.injEq,
    Rlp.Item.nat_inj, Rlp.Item.text_inj, hnetwork, hactions]
  constructor
  · rintro ⟨rfl, rfl, hnetwork, haction, hfurther⟩
    exact ⟨⟨hnonce.trans hnonce'.symm, hfee.trans hfee'.symm, hnetwork, haction⟩, hfurther⟩
  · rintro ⟨hagree, hfurther⟩
    have hsame : some nonce = some nonce' := by rw [← hnonce, ← hnonce', hagree.nonce]
    have hsame' : some fee = some fee' := by rw [← hfee, ← hfee', hagree.fee]
    exact ⟨Option.some.inj hsame, Option.some.inj hsame', hagree.networkId, hagree.action, hfurther⟩

end Parcel

namespace SignedParcel

theorem item_eq_ok_iff {signed : SignedParcel} {item : Rlp.Item} :
    signed.item = .ok item ↔
      ∃ nonce fee signature, signed.unsigned.nonce = some nonce ∧
        signed.unsigned.fee = some fee ∧ signed.signature.toBytes = .ok signature ∧
        signed.unsigned.itemWith nonce fee [.bytes signature.bytes] = .ok item := by
  rw [SignedParcel.item, bind_eq_ok_iff]
  constructor
  · rintro ⟨⟨nonce, fee⟩, hsettled, hrest⟩
    obtain ⟨signature, hsignature, hitem⟩ := bind_eq_ok_iff.mp hrest
    obtain ⟨hnonce, hfee⟩ := Parcel.settled_eq_ok_iff.mp hsettled
    exact ⟨nonce, fee, signature, hnonce, hfee, hsignature, hitem⟩
  · rintro ⟨nonce, fee, signature, hnonce, hfee, hsignature, hitem⟩
    exact ⟨(nonce, fee), Parcel.settled_eq_ok_iff.mpr ⟨hnonce, hfee⟩,
      bind_eq_ok_iff.mpr ⟨signature, hsignature, hitem⟩⟩

theorem encode_eq_ok_iff {signed : SignedParcel} {bytes : Bytes} :
    signed.encode = .ok bytes ↔ ∃ item, signed.item = .ok item ∧ item.encode = bytes :=
  map_eq_ok_iff

theorem exists_encode {signed : SignedParcel} (hsettled : signed.unsigned.IsSettled)
    (htext : signed.unsigned.IsText) (hfits : signed.signature.Fits) :
    ∃ bytes, signed.encode = .ok bytes := by
  obtain ⟨nonce, fee, hnonce, hfee⟩ := hsettled
  obtain ⟨signature, hsignature, -⟩ := hfits.exists_toBytes
  obtain ⟨item, hwith⟩ := htext.exists_itemWith nonce fee [.bytes signature.bytes]
  exact ⟨_, encode_eq_ok_iff.mpr
    ⟨_, item_eq_ok_iff.mpr ⟨nonce, fee, signature, hnonce, hfee, hsignature, hwith⟩, rfl⟩⟩

end SignedParcel

/-! ## What is hashed -/

/-- The kinds of things that are hashed. -/
inductive HashedKind where
  | parcel
  | signedParcel
  | transfer
  | mint
deriving DecidableEq

/-- The number of items in the encoding of a kind. -/
def HashedKind.arity : HashedKind → Nat
  | parcel => 4
  | signedParcel => 5
  | transfer => 6
  | mint => 10

theorem HashedKind.arity_injective : Function.Injective arity := by
  intro kind other harity
  cases kind <;> cases other <;> simp_all [arity]

/-- Something that is hashed. -/
inductive Hashed where
  | parcel (parcel : Parcel)
  | signedParcel (signed : SignedParcel)
  /-- A transfer with its scripts. -/
  | transfer (transfer : Transfer)
  /-- A transfer without its scripts, as its entries sign it. -/
  | transferMessage (transfer : Transfer)
  | mint (mint : Mint)

namespace Hashed

/-- The kind of a thing that is hashed. -/
def kind : Hashed → HashedKind
  | parcel _ => .parcel
  | signedParcel _ => .signedParcel
  | transfer _ => .transfer
  | transferMessage _ => .transfer
  | mint _ => .mint

/-- The bytes that are hashed. -/
def encode : Hashed → Except Fault Bytes
  | parcel p => p.encode
  | signedParcel s => s.encode
  | transfer t => .ok t.encode
  | transferMessage t => .ok t.withoutScript.encode
  | mint m => m.encode

/-- What is hashed is the encoding of a list with as many items as the kind has. -/
theorem exists_items {hashed : Hashed} {bytes : Bytes} (hencode : hashed.encode = .ok bytes) :
    ∃ items, (Rlp.Item.list items).encode = bytes ∧ items.length = hashed.kind.arity := by
  cases hashed with
  | parcel p =>
      obtain ⟨item, hitem, rfl⟩ := Parcel.encode_eq_ok_iff.mp hencode
      obtain ⟨_, _, -, -, hwith⟩ := Parcel.item_eq_ok_iff.mp hitem
      obtain ⟨_, -, rfl⟩ := Parcel.itemWith_eq_ok_iff.mp hwith
      exact ⟨_, rfl, rfl⟩
  | signedParcel s =>
      obtain ⟨item, hitem, rfl⟩ := SignedParcel.encode_eq_ok_iff.mp hencode
      obtain ⟨_, _, _, -, -, -, hwith⟩ := SignedParcel.item_eq_ok_iff.mp hitem
      obtain ⟨_, -, rfl⟩ := Parcel.itemWith_eq_ok_iff.mp hwith
      exact ⟨_, rfl, rfl⟩
  | transfer t =>
      cases hencode
      exact ⟨_, rfl, rfl⟩
  | transferMessage t =>
      cases hencode
      exact ⟨_, rfl, rfl⟩
  | mint m =>
      obtain ⟨item, hitem, rfl⟩ := map_eq_ok_iff.mp hencode
      unfold Mint.item at hitem
      split at hitem
      · cases hitem
        exact ⟨_, rfl, rfl⟩
      · cases hitem

theorem kind_eq_of_encode_eq {hashed other : Hashed} {bytes : Bytes}
    (hencode : hashed.encode = .ok bytes) (hother : other.encode = .ok bytes)
    (hlength : bytes.length < 2 ^ 64) : hashed.kind = other.kind := by
  obtain ⟨items, rfl, harity⟩ := exists_items hencode
  obtain ⟨items', hsame, harity'⟩ := exists_items hother
  obtain rfl := Rlp.Item.list.inj ((Rlp.Item.encode_inj hlength).mp hsame.symm)
  exact HashedKind.arity_injective (harity.symm.trans harity')

end Hashed

namespace Parcel

/-- A settled parcel has an encoding, which says exactly which parcel it is, and so does its signed
form together with the signature; no two kinds of things that are hashed share an encoding. -/
theorem encode_unambiguous :
    (∀ parcel : Parcel, parcel.IsSettled → parcel.IsText → ∃ bytes, parcel.encode = .ok bytes) ∧
    (∀ (parcel other : Parcel) bytes bytes', parcel.IsText → other.IsText →
      parcel.encode = .ok bytes → other.encode = .ok bytes' → bytes.length < 2 ^ 64 →
      (bytes = bytes' ↔ parcel.Agree other)) ∧
    (∀ signed : SignedParcel, signed.unsigned.IsSettled → signed.unsigned.IsText →
      signed.signature.Fits → ∃ bytes, signed.encode = .ok bytes) ∧
    (∀ (signed other : SignedParcel) bytes bytes', signed.unsigned.IsText →
      other.unsigned.IsText → signed.signature.Fits → other.signature.Fits →
      signed.encode = .ok bytes → other.encode = .ok bytes' → bytes.length < 2 ^ 64 →
      (bytes = bytes' ↔
        signed.unsigned.Agree other.unsigned ∧ signed.signature = other.signature)) ∧
    (∀ (hashed other : Hashed) bytes, hashed.encode = .ok bytes → other.encode = .ok bytes →
      bytes.length < 2 ^ 64 → hashed.kind = other.kind) := by
  refine ⟨fun _ => exists_encode, ?_, fun _ => SignedParcel.exists_encode, ?_,
    fun _ _ _ => Hashed.kind_eq_of_encode_eq⟩
  · intro parcel other bytes bytes' htext hother hencode hencode' hlength
    obtain ⟨item, hitem, rfl⟩ := encode_eq_ok_iff.mp hencode
    obtain ⟨item', hitem', rfl⟩ := encode_eq_ok_iff.mp hencode'
    obtain ⟨nonce, fee, hnonce, hfee, hwith⟩ := item_eq_ok_iff.mp hitem
    obtain ⟨nonce', fee', hnonce', hfee', hwith'⟩ := item_eq_ok_iff.mp hitem'
    rw [Rlp.Item.encode_inj hlength,
      itemWith_inj htext hother hnonce hfee hnonce' hfee' hwith hwith']
    exact and_iff_left rfl
  · intro signed other bytes bytes' htext hother hfits hfits' hencode hencode' hlength
    obtain ⟨item, hitem, rfl⟩ := SignedParcel.encode_eq_ok_iff.mp hencode
    obtain ⟨item', hitem', rfl⟩ := SignedParcel.encode_eq_ok_iff.mp hencode'
    obtain ⟨nonce, fee, signature, hnonce, hfee, hsignature, hwith⟩ :=
      SignedParcel.item_eq_ok_iff.mp hitem
    obtain ⟨nonce', fee', signature', hnonce', hfee', hsignature', hwith'⟩ :=
      SignedParcel.item_eq_ok_iff.mp hitem'
    have hsame : [Rlp.Item.bytes signature.bytes] = [.bytes signature'.bytes] ↔
        signed.signature = other.signature := by
      rw [← hfits.toBytes_inj hfits', hsignature, hsignature', Except.ok.injEq, List.cons.injEq,
        Rlp.Item.bytes.injEq, FixedBytes.bytes_inj]
      exact and_iff_left rfl
    rw [Rlp.Item.encode_inj hlength,
      itemWith_inj htext hother hnonce hfee hnonce' hfee' hwith hwith', hsame]

/-- A parcel that makes an account the owner of a shard, by an address on some network. -/
def giveShard (network : NetworkId) : Parcel where
  nonce := some 0
  fee := some 10
  networkId := .standard
  action := .setShardOwners 1 [⟨network.toNetwork, .zero 20⟩]

/-- The same parcel with a made-up signature. -/
def giveShardSigned (v : Int) : SignedParcel :=
  ⟨giveShard .standard, ⟨1, 1, v⟩, {}⟩

/-- The network of the owner's address does not show in the encoding, the recovery id does. -/
theorem encode_unambiguous_giveShard :
    (giveShard .standard).encode = (giveShard ⟨"cc", by decide, by decide⟩).encode ∧
      (giveShardSigned 0).encode ≠ (giveShardSigned 1).encode ∧
      (giveShard .standard).encode ≠ (giveShardSigned 0).encode := by
  obtain ⟨hencodes, hparcels, hencodesSigned, hsigned, hkinds⟩ := encode_unambiguous
  have hsettled : ∀ network, (giveShard network).IsSettled := fun _ => ⟨0, 10, rfl, rfl⟩
  have htext : ∀ network, (giveShard network).IsText := fun _ => trivial
  have hfits : ∀ v : Int, 0 ≤ v → v < 256 → (giveShardSigned v).signature.Fits := by
    intro v hv hv'
    exact ⟨Int.one_nonneg, by simp [giveShardSigned], Int.one_nonneg, by simp [giveShardSigned],
      hv, hv'⟩
  have hlength : ∀ bytes, (giveShard .standard).encode = .ok bytes → bytes.length < 2 ^ 64 := by
    intro bytes hbytes
    have hshown : (giveShard .standard).encode =
        .ok ([0xde, 0x80, 10, 0x82, 0x74, 0x63, 0xd8, 5, 1, 0xd5, 0x94] ++ List.replicate 20 0) := by
      decide +kernel
    rw [hshown] at hbytes
    cases hbytes
    decide
  have hlengthSigned : ∀ bytes, (giveShardSigned 0).encode = .ok bytes →
      bytes.length < 2 ^ 64 := by
    intro bytes hbytes
    have hshown : (giveShardSigned 0).encode.map List.length = .ok 99 := by
      decide +kernel
    rw [hbytes, map_ok, Except.ok.injEq] at hshown
    omega
  obtain ⟨bytes, hbytes⟩ := hencodes _ (hsettled .standard) (htext .standard)
  refine ⟨?_, ?_, ?_⟩
  · obtain ⟨bytes', hbytes'⟩ :=
      hencodes (giveShard ⟨"cc", by decide, by decide⟩) (hsettled _) (htext _)
    have hagree : (giveShard .standard).Agree (giveShard ⟨"cc", by decide, by decide⟩) :=
      ⟨rfl, rfl, rfl, .setShardOwners 1 rfl⟩
    have hsame := (hparcels _ _ _ _ (htext _) (htext _) hbytes hbytes' (hlength _ hbytes)).mpr hagree
    rw [hbytes, hbytes', hsame]
  · intro hsame
    obtain ⟨bytes, hbytes⟩ := hencodesSigned (giveShardSigned 0) (hsettled _) (htext _)
      (hfits 0 (by decide) (by decide))
    have hagree := (hsigned _ _ _ _ (htext _) (htext _) (hfits 0 (by decide) (by decide))
      (hfits 1 (by decide) (by decide)) hbytes (hsame.symm.trans hbytes) (hlengthSigned _ hbytes)).mp rfl
    exact absurd hagree.2 (by decide)
  · intro hsame
    have hkind := hkinds (.parcel (giveShard .standard)) (.signedParcel (giveShardSigned 0)) _
      hbytes (hsame.symm.trans hbytes) (hlength _ hbytes)
    cases hkind

end Parcel

end ShardLedger
