import Mathlib.Data.List.Forall2
import ShardLedger.Proofs.Address.Transfer
import ShardLedger.Proofs.Keys.SigningOrder
import ShardLedger.Proofs.Transaction.Mint

/-!
# Spending what was sent to an address

An address of an authorizer stands for the lock of a key.  What a transaction puts under
that lock becomes an asset, and the asset is spent by a transfer with a single entry,
which refers to the output in full.  Whenever the private key signs the message of the
transfer, the entry can be signed, and the signed transfer is authorized as a whole.
-/

namespace ShardLedger

/-! ## Recipients -/

/-- An address is given as it was read, or as its text. -/
def AddressInput.Names (input : AddressInput) (address : TransferAddress) : Prop :=
  input = .transfer address ∨ input = .written (.text address.toText)

/-- A recipient is to get an amount at an address. -/
structure Recipient.IsFor (recipient : Recipient) (target : TransferAddress × Amount) : Prop where
  address : recipient.address.Names target.1
  amount : recipient.amount = .int target.2.val

/-- An output gives an amount of a type of asset to an address: its condition is written as the
address. -/
structure Output.IsFor (output : Output) (assetType : AssetType) (network : NetworkId)
    (target : TransferAddress × Amount) : Prop where
  assetType : output.assetType = assetType
  amount : output.amount = target.2
  address : formatAddress output.lockScriptHash.bytes output.parameters (.text network.text) =
    .ok target.1.toText

theorem AddressInput.Names.resolve_eq {input : AddressInput} {address : TransferAddress}
    (hnames : input.Names address) (expected : Datum) :
    input.resolve expected =
      (Network.check expected address.network).map fun _ => address.condition := by
  rcases hnames with rfl | rfl
  · simp only [AddressInput.resolve]
    cases Network.check expected address.network with
    | error fault => rfl
    | ok => rfl
  · exact AddressInput.resolve_toText expected address

/-- An address on a network is resolved there, and without naming a network. -/
theorem AddressInput.Names.resolve_on {input : AddressInput} {address : TransferAddress}
    (hnames : input.Names address) {network : NetworkId}
    (hnetwork : address.network = network.toNetwork) :
    input.resolve .null = .ok address.condition ∧
      input.resolve (.text network.text) = .ok address.condition := by
  have hcheck : Network.check (.text network.text) address.network = .ok () := by
    rw [hnetwork]
    exact Network.check_text network.toNetwork
  constructor
  · rw [hnames.resolve_eq, Network.check_null, map_ok]
  · rw [hnames.resolve_eq, hcheck, map_ok]

theorem Recipient.IsFor.exists_output {recipient : Recipient} {target : TransferAddress × Amount}
    (hfor : recipient.IsFor target) {network : NetworkId}
    (hnetwork : target.1.network = network.toNetwork) (assetType : AssetType) :
    ∃ output, recipient.output assetType (.text network.text) = .ok output ∧
      output.IsFor assetType network target := by
  obtain ⟨-, hresolve⟩ := hfor.address.resolve_on hnetwork
  refine ⟨⟨target.1.condition.lockScriptHash, target.1.condition.parameters, assetType, target.2⟩,
    ?_, rfl, rfl, ?_⟩
  · rw [Recipient.output, hresolve, ok_bind, Output.ofCondition, hfor.amount, Datum.amount_int]
    rfl
  · exact formatAddress_eq_ok_iff.mpr
      ⟨network, target.1, NetworkId.ofDatum_text network, hnetwork, rfl, rfl, rfl⟩

/-- Recipients on a network get one output each, in their order. -/
theorem Recipient.exists_outputs {recipients : List Recipient}
    {targets : List (TransferAddress × Amount)}
    (hfor : List.Forall₂ Recipient.IsFor recipients targets) {network : NetworkId}
    (hnetwork : ∀ target ∈ targets, target.1.network = network.toNetwork) (assetType : AssetType) :
    ∃ outputs, recipients.mapM (Recipient.output assetType (.text network.text)) = .ok outputs ∧
      List.Forall₂ (fun output target => output.IsFor assetType network target)
        outputs targets := by
  induction hfor with
  | nil => exact ⟨[], rfl, .nil⟩
  | cons hfirst _ ih =>
      obtain ⟨hnetworkFirst, hnetworkRest⟩ := List.forall_mem_cons.mp hnetwork
      obtain ⟨output, houtput, houtputFor⟩ := hfirst.exists_output hnetworkFirst assetType
      obtain ⟨outputs, houtputs, hrest⟩ := ih hnetworkRest
      exact ⟨output :: outputs, mapM_cons_eq_ok_iff.mpr ⟨output, outputs, houtput, houtputs, rfl⟩,
        .cons houtputFor hrest⟩

/-- A transfer that spends an out point on its own. -/
structure Transfer.SpendsOnly (transfer : Transfer) (list : EntryList) (point : OutPoint) :
    Prop where
  entry : transfer.entries list = [{ prevOut := point }]
  others : ∀ other, other ≠ list → transfer.entries other = []

theorem Asset.exists_transferTo (asset : Asset) {recipients : List Recipient}
    {targets : List (TransferAddress × Amount)}
    (hfor : List.Forall₂ Recipient.IsFor recipients targets) {network : NetworkId}
    (hnetwork : ∀ target ∈ targets, target.1.network = network.toNetwork) (nonce : Nat) :
    ∃ transfer, asset.transferTo recipients (.int nonce) (.text network.text) = .ok transfer ∧
      transfer.networkId = network ∧ transfer.nonce = nonce ∧
      transfer.SpendsOnly .inputs asset.outPoint ∧
      List.Forall₂ (fun output target => output.IsFor asset.assetType network target)
        transfer.outputs targets := by
  obtain ⟨outputs, houtputs, hall⟩ := Recipient.exists_outputs hfor hnetwork asset.assetType
  refine ⟨⟨[], [asset.entry], outputs, network, nonce⟩, ?_, rfl, rfl, ⟨rfl, ?_⟩, hall⟩
  · simp only [Asset.transferTo, houtputs, ok_bind, Transfer.build, NetworkId.ofDatum_text,
      Datum.natural_int, pure_eq_ok]
  · intro other hother
    cases other with
    | inputs => exact absurd rfl hother
    | burns => rfl

theorem Transfer.spendsOnly_addEntry {base : Transfer} {list : EntryList}
    (hbase : ∀ other, base.entries other = []) (point : OutPoint) :
    (base.addEntry list point).SpendsOnly list point := by
  constructor
  · rw [Transfer.addEntry, Transfer.entries_setEntries, hbase, List.nil_append]
  · intro other hother
    rw [Transfer.addEntry, Transfer.entries_setEntries_of_ne hother.symm, hbase]

/-! ## Signing the only entry -/

/-- With the keys of a ring, a transfer is authorized once the request has succeeded; and if the
ring holds a private key, the request succeeds whenever that key signs the message. -/
structure SigningCall.Completes (call : SigningCall) (ring : KeyRing) (secret : SecretKey)
    (transfer : Transfer) : Prop where
  verified : ∀ after, (call.sign ring.service).run transfer = .ok () after →
    after.verify .standard = .ok ()
  succeeds : ring.Holds secret →
    ((∃ after, (call.sign ring.service).run transfer = .ok () after) ↔
      ∃ signature, secret.sign transfer.hashWithoutScript = .ok signature)

/-- The request for the only entry of a transfer completes it. -/
theorem SigningCall.completes_of_spendsOnly {ring : KeyRing} (hring : ring.Reachable)
    {secret : SecretKey} {call : SigningCall} (hserved : call.IsServed) (hfirst : call.index = 0)
    {transfer : Transfer} {point : OutPoint} (hspends : transfer.SpendsOnly call.list point)
    (hlock : point.lockScriptHash = some call.list.authorizer.lockScriptHash)
    (hparameters : point.parameters = some [secret.publicKey.hash.bytes]) :
    call.Completes ring secret transfer := by
  have hentry : (transfer.entries call.list)[0]? = some { prevOut := point } := by
    rw [hspends.entry]
    rfl
  have hawaits : call.list.authorizer.Awaits { prevOut := point } secret.publicKey.hash :=
    ⟨rfl, rfl, hlock, hparameters⟩
  constructor
  · intro after hrun
    apply Transfer.verify_eq_ok
    intro list i hi
    rw [length_entries_of_run_sign hrun] at hi
    have hlist : list = call.list := by
      by_contra hother
      rw [hspends.others list hother] at hi
      exact Nat.not_lt_zero i hi
    subst hlist
    rw [hspends.entry, List.length_singleton, Nat.lt_one_iff] at hi
    subst hi
    exact isAuthorized_of_run_sign hring.honest hrun (.inl ⟨rfl, hfirst⟩)
  · intro hholds
    rw [← hholds.exists_unlockScript_iff]
    constructor
    · rintro ⟨after, hrun⟩
      obtain ⟨-, i, entry, hash, unlock, hindex, hready, -⟩ := run_sign_eq_ok_iff.mp hrun
      obtain rfl : i = 0 := by omega
      have hsame := hready.entry_at
      rw [hentry, Option.some.injEq] at hsame
      subst hsame
      have hhash : [hash.bytes] = [secret.publicKey.hash.bytes] :=
        Option.some.inj (hready.awaits.parameters.symm.trans hparameters)
      rw [← List.singleton_inj.mp hhash]
      exact ⟨unlock, hready.unlock⟩
    · rintro ⟨unlock, hunlock⟩
      exact ⟨_, run_sign_eq_ok_iff.mpr
        ⟨hserved, 0, _, _, unlock, hfirst, ⟨hentry, hawaits, hunlock⟩, rfl⟩⟩

/-! ## From an address to the transfer that spends -/

/-- A mint of a fixed amount gives an asset that refers to its first output in full. -/
theorem Mint.exists_mintedAsset {mint : Mint} {condition : SpendCondition} {amount : Amount}
    {hash : Digest}
    (houtput : mint.output = ⟨condition.lockScriptHash, condition.parameters, some amount⟩)
    (hhash : mint.hash = .ok hash) :
    ∃ type asset, mint.assetType = .ok type ∧ mint.mintedAsset = .ok asset ∧
      asset.outPoint = ⟨hash, 0, type, amount, some condition.lockScriptHash,
        some condition.parameters⟩ := by
  have hamount : mint.output.amount = some amount := by rw [houtput]
  refine ⟨_, _, Mint.assetType_of_hash hhash, Mint.mintedAsset_of_hash hamount hhash, ?_⟩
  rw [houtput]
  rfl

theorem Transfer.exists_transferredAsset {transfer : Transfer} {i : Nat} {output : Output}
    (houtput : transfer.outputs[i]? = some output) :
    ∃ asset, transfer.transferredAsset i = .ok asset ∧
      asset.outPoint = ⟨transfer.hash, i, output.assetType, output.amount,
        some output.condition.lockScriptHash, some output.condition.parameters⟩ := by
  refine ⟨transfer.assetOf output i, ?_, rfl⟩
  have hread : transfer.transferredAsset (.ofNat i) = .ok (transfer.assetOf output i) := by
    simp only [Transfer.transferredAsset, houtput]
  exact hread

namespace Authorizer

/-- An asset is spent with the keys of a ring.  What pays to a key is transferred to recipients, who
get an output each; what only burns is burnt by a transfer that has no other entries.  Either
way the transfer has one entry, which refers to the asset by the given out point. -/
def CanSpend (authorizer : Authorizer) (ring : KeyRing) (secret : SecretKey) (network : NetworkId)
    (asset : Asset) (point : OutPoint) : Prop :=
  match authorizer with
  | payToKey =>
    ∀ (recipients : List Recipient) (targets : List (TransferAddress × Amount)) (nonce : Nat),
      List.Forall₂ Recipient.IsFor recipients targets →
      (∀ target ∈ targets, target.1.network = network.toNetwork) →
        ∃ transfer,
          asset.transferTo recipients (.int nonce) (.text network.text) = .ok transfer ∧
          transfer.networkId = network ∧ transfer.nonce = nonce ∧
          transfer.SpendsOnly .inputs point ∧
          List.Forall₂ (fun output target => output.IsFor asset.assetType network target)
            transfer.outputs targets ∧
          (SigningCall.input .payToKey 0).Completes ring secret transfer
  | burnWithKey =>
    ∀ base : Transfer, (∀ list, base.entries list = []) →
      (base.addEntry .burns asset.outPoint).SpendsOnly .burns point ∧
        (SigningCall.burn 0).Completes ring secret (base.addEntry .burns asset.outPoint)

theorem canSpend_of_lock {ring : KeyRing} (hring : ring.Reachable) {authorizer : Authorizer}
    {secret : SecretKey} {network : NetworkId} {asset : Asset} {point : OutPoint}
    (hpoint : asset.outPoint = point)
    (hlock : point.lockScriptHash = some authorizer.lockScriptHash)
    (hparameters : point.parameters = some [secret.publicKey.hash.bytes]) :
    authorizer.CanSpend ring secret network asset point := by
  cases authorizer with
  | payToKey =>
      intro recipients targets nonce hfor hnetwork
      obtain ⟨transfer, htransfer, hon, hnonce, hspends, houtputs⟩ :=
        asset.exists_transferTo hfor hnetwork nonce
      rw [hpoint] at hspends
      have hserved : (SigningCall.input .payToKey 0).IsServed := rfl
      exact ⟨transfer, htransfer, hon, hnonce, hspends, houtputs,
        SigningCall.completes_of_spendsOnly hring hserved rfl hspends hlock hparameters⟩
  | burnWithKey =>
      intro base hbase
      have hspends : (base.addEntry .burns asset.outPoint).SpendsOnly .burns asset.outPoint :=
        Transfer.spendsOnly_addEntry hbase asset.outPoint
      rw [hpoint] at hspends ⊢
      have hserved : (SigningCall.burn 0).IsServed := trivial
      exact ⟨hspends,
        SigningCall.completes_of_spendsOnly hring hserved rfl hspends hlock hparameters⟩

/-- The address that locks to a public key. -/
def lockAddress (authorizer : Authorizer) (key : PublicKey) (network : NetworkId) :
    TransferAddress :=
  ⟨network.toNetwork, authorizer.addressType, key.hash⟩

theorem addressOf_eq (authorizer : Authorizer) (key : PublicKey) (network : NetworkId) :
    authorizer.addressOf key (.text network.text) = .ok (authorizer.lockAddress key network) := by
  have hpayload : TransferAddress.payloadOf authorizer.addressType key.hash.bytes = .ok key.hash :=
    TransferAddress.payloadOf_eq_ok_iff.mpr rfl
  simp only [addressOf, TransferAddress.ofPayload, NetworkId.ofDatum_text,
    AddressType.ofDatum_code, hpayload, ok_bind, pure_eq_ok, lockAddress]

theorem condition_lockAddress (authorizer : Authorizer) (key : PublicKey) (network : NetworkId) :
    (authorizer.lockAddress key network).condition =
      ⟨authorizer.lockScriptHash, [key.hash.bytes]⟩ := by
  cases authorizer with
  | payToKey => rfl
  | burnWithKey => rfl

/-- An authorizer can spend what is sent to its addresses.  Every private key can be taken into a
key ring and then has an address on the network.  Whatever a mint or a transfer puts under the
condition that the address stands for becomes an asset, which can be spent with the keys of the
ring. -/
theorem spends_what_it_receives (authorizer : Authorizer) (network : NetworkId)
    {secretBytes : Bytes} {secret : SecretKey}
    (hsecret : SecretKey.ofBytes secretBytes = .ok secret) :
    (∀ store : KeyRing, store.Reachable →
      ∃ next, store.importKey secretBytes = .ok (next, secret.publicKey) ∧ next.Reachable ∧
        next.Holds secret) ∧
    ∃ address, authorizer.addressOf secret.publicKey (.text network.text) = .ok address ∧
      ∀ named : AddressInput, named.Names address →
        ∃ condition, named.resolve .null = .ok condition ∧
          named.resolve (.text network.text) = .ok condition ∧
          ∀ ring : KeyRing, ring.Reachable →
            (∀ (mint : Mint) (amount : Amount),
              mint.output = ⟨condition.lockScriptHash, condition.parameters, some amount⟩ →
                (mint.IsText → ∃ hash, mint.hash = .ok hash) ∧
                ∀ hash, mint.hash = .ok hash →
                  ∃ type asset, mint.assetType = .ok type ∧ mint.mintedAsset = .ok asset ∧
                    authorizer.CanSpend ring secret network asset
                      ⟨hash, 0, type, amount, some condition.lockScriptHash,
                        some condition.parameters⟩) ∧
            ∀ (transfer : Transfer) (i : Nat) (output : Output),
              transfer.outputs[i]? = some output → output.condition = condition →
                ∃ asset, transfer.transferredAsset i = .ok asset ∧
                  authorizer.CanSpend ring secret network asset
                    ⟨transfer.hash, i, output.assetType, output.amount,
                      some condition.lockScriptHash, some condition.parameters⟩ := by
  constructor
  · intro store hstore
    refine ⟨store.add secret, ?_, hstore.add secret, store.holds_add secret⟩
    rw [KeyRing.importKey, hsecret]
    rfl
  · refine ⟨_, authorizer.addressOf_eq secret.publicKey network, ?_⟩
    intro named hnamed
    have hnetwork : (authorizer.lockAddress secret.publicKey network).network =
        network.toNetwork := rfl
    obtain ⟨hnull, hon⟩ := hnamed.resolve_on hnetwork
    rw [condition_lockAddress] at hnull hon
    refine ⟨_, hnull, hon, ?_⟩
    intro ring hring
    constructor
    · intro mint amount houtput
      refine ⟨Mint.IsText.exists_hash, ?_⟩
      intro hash hhash
      obtain ⟨type, asset, htype, hasset, hpoint⟩ := Mint.exists_mintedAsset houtput hhash
      exact ⟨type, asset, htype, hasset, canSpend_of_lock hring hpoint rfl rfl⟩
    · intro transfer i output houtput hcondition
      obtain ⟨asset, hasset, hpoint⟩ := Transfer.exists_transferredAsset houtput
      rw [hcondition] at hpoint
      exact ⟨asset, hasset, canSpend_of_lock hring hpoint rfl rfl⟩

/-- The address that pays to the private key one. -/
def oneAddress : TransferAddress :=
  payToKey.lockAddress SecretKey.one.publicKey .standard

/-- A mint of a hundred units for the private key one. -/
def hundredMinted : Mint where
  networkId := .standard
  shardId := 0
  worldId := 0
  metadata := .text "units"
  output := ⟨Script.payToKeyHash, [SecretKey.one.publicKey.hash.bytes], some ⟨100, by decide⟩⟩
  registrar := none
  nonce := 0

/-- The transfer that sends them back to their address. -/
def hundredSpent : Except Fault Transfer := do
  (← hundredMinted.mintedAsset).transferTo [⟨.written (.text oneAddress.toText), .int 100⟩] (.int 0)
    (.text "tc")

/-- The message of the transfer. -/
def hundredSpentMessage : Digest :=
  BigEndian.fixedBytes 32 0xc006c9e664af2512e5d754f09a049ef79c1326c298bb4ef7328d8566e82a5aaa

theorem hashWithoutScript_hundredSpent :
    hundredSpent.toOption.map Transfer.hashWithoutScript = some hundredSpentMessage := by
  decide +kernel

/-- The private key one signs the message, at its first nonce. -/
theorem exists_sign_hundredSpent :
    ∃ signature, SecretKey.one.sign hundredSpentMessage = .ok signature :=
  SecretKey.exists_sign_of_suitsAt
    0x6ccc5b171d8b89fc65bf34141311f6628b249ce670029eaccc70c811d780e50e 254
    0x6ba974b6a2b5d30c205b7907cd9be0328dac7e3c5b989cda927a90136974493e
    0x0c95afbb4bcd0f994840a959f79ad8f20b7590ec87eebda063c787af3ec7666f
    (by decide +kernel) (by decide +kernel)

theorem spends_what_it_receives_hundredMinted :
    ∃ (next : KeyRing) (asset : Asset) (transfer after : Transfer),
      KeyRing.importKey {} (BigEndian.fixed 32 1) = .ok (next, SecretKey.one.publicKey) ∧
      payToKey.addressOf SecretKey.one.publicKey (.text "tc") = .ok oneAddress ∧
      hundredMinted.mintedAsset = .ok asset ∧
      asset.transferTo [⟨.written (.text oneAddress.toText), .int 100⟩] (.int 0) (.text "tc") =
        .ok transfer ∧
      ((SigningCall.input .payToKey 0).sign next.service).run transfer = .ok () after ∧
      after.verify .standard = .ok () := by
  obtain ⟨hstore, address, haddress, hspend⟩ :=
    spends_what_it_receives .payToKey .standard (SecretKey.ofBytes_fixed .one)
  obtain ⟨next, himport, hnext, hholds⟩ := hstore {} .empty
  obtain rfl : oneAddress = address :=
    Except.ok.inj ((addressOf_eq .payToKey SecretKey.one.publicKey .standard).symm.trans haddress)
  obtain ⟨condition, hresolve, -, hring⟩ := hspend (.transfer oneAddress) (.inl rfl)
  obtain rfl : oneAddress.condition = condition := Except.ok.inj hresolve
  obtain ⟨hmint, -⟩ := hring next hnext
  obtain ⟨hhash, hasset⟩ := hmint hundredMinted ⟨100, by decide⟩ rfl
  obtain ⟨hash, hhash⟩ := hhash ⟨"units", rfl⟩
  obtain ⟨type, asset, -, hminted, hcan⟩ := hasset hash hhash
  have hrecipient : Recipient.IsFor ⟨.written (.text oneAddress.toText), .int 100⟩
      (oneAddress, ⟨100, by decide⟩) := ⟨.inr rfl, rfl⟩
  have hon : ∀ target ∈ [(oneAddress, (⟨100, by decide⟩ : Amount))],
      target.1.network = NetworkId.standard.toNetwork := by
    intro target hmem
    rw [List.mem_singleton.mp hmem]
    rfl
  obtain ⟨transfer, htransfer, -, -, -, -, hcompletes⟩ := hcan _ _ 0 (.cons hrecipient .nil) hon
  have hspent : hundredSpent = .ok transfer := bind_eq_ok_iff.mpr ⟨asset, hminted, htransfer⟩
  have hmessage := hashWithoutScript_hundredSpent
  rw [hspent] at hmessage
  have hsign := exists_sign_hundredSpent
  rw [← Option.some.inj hmessage] at hsign
  obtain ⟨after, hrun⟩ := (hcompletes.succeeds hholds).mpr hsign
  exact ⟨next, asset, transfer, after, himport, haddress, hminted, htransfer, hrun,
    hcompletes.verified after hrun⟩

end Authorizer

end ShardLedger
