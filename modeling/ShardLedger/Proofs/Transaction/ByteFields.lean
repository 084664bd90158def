import ShardLedger.Proofs.Document.ByteString
import ShardLedger.Transaction.Mint

/-!
# Scripts and parameters in documents

The scripts of an entry and the parameters of an output, an asset, an out point and a mint are
byte strings in documents.  Each of these fields decides by itself whether the document is read
and with which fault it is not, and what was read is written back as the lists of its bytes.
-/

namespace ShardLedger

/-- A field of an object decides by itself how far a document is read, and is written from what was
read.  The value of the field is read by `of`; `set` puts what was read in place, and `render` is
the value that is written. -/
structure Governs {α β : Type} (name : String) (read : Datum → Except Fault α)
    (write : α → Except Fault Datum) (of : Datum → Except Fault β) (render : β → Option Datum)
    (set : β → α → α) : Prop where
  /-- With another value in the field, a document that can be read is read as the value is. -/
  read_put : ∀ fields x, read (.object fields) = .ok x → ∀ value,
    read (.object (Keyed.put name value fields)) = (of value).map fun part => set part x
  /-- A document that can be read has a value in the field that can be, and that is written. -/
  written : ∀ fields x value, read (.object fields) = .ok x → Keyed.get? name fields = some value →
    ∃ part, of value = .ok part ∧ (write x >>= fun d => d.field? name) = .ok (render part)

theorem governs_of_put {α β : Type} {name : String} {read : Datum → Except Fault α}
    {write : α → Except Fault Datum} {of : Datum → Except Fault β} {render : β → Option Datum}
    {set : β → α → α}
    (hput : ∀ fields x, read (.object fields) = .ok x → ∀ value,
      read (.object (Keyed.put name value fields)) = (of value).map fun part => set part x)
    (hwrite : ∀ part x, (write (set part x) >>= fun d => d.field? name) = .ok (render part)) :
    Governs name read write of render set := by
  refine ⟨hput, ?_⟩
  intro fields x value hread hvalue
  -- Putting the value that is there changes nothing.
  have hsame := hput fields x hread value
  rw [Keyed.put_of_get? hvalue, hread] at hsame
  obtain ⟨part, hpart, hset⟩ := map_eq_ok_iff.mp hsame.symm
  refine ⟨part, hpart, ?_⟩
  rw [← hset]
  exact hwrite part x

/-- A field with a byte string governs: what is read is written as the list of its bytes. -/
def GovernsBytes {α : Type} (name : String) (read : Datum → Except Fault α)
    (write : α → Except Fault Datum) (set : Bytes → α → α) : Prop :=
  Governs name read write (Datum.byteString name) (fun b => some (.byteList b)) set

/-- A field with a list of byte strings governs. -/
def GovernsParameters {α : Type} (read : Datum → Except Fault α) (write : α → Except Fault Datum)
    (set : List Bytes → α → α) : Prop :=
  Governs "parameters" read write Datum.parameters (fun ps => some (.byteLists ps)) set

/-! ## Scripts of an entry -/

namespace Entry

theorem governs_lockScript :
    GovernsBytes "lockScript" ofDatum (fun entry => .ok entry.toDatum) (assignScript .lock) := by
  apply governs_of_put
  · intro fields entry hread value
    simp only [ofDatum, bind_eq_ok_iff, pure_eq_ok, Except.ok.injEq] at hread
    obtain ⟨_, hprev, prevOut, hprevOut, _, -, _, -, _, hunlock, unlock, hscript, rfl⟩ := hread
    simp (disch := decide) only [ofDatum, Datum.field_put_of_ne, Datum.fieldOr_put_self,
      Datum.fieldOr_put_of_ne, hprev, hprevOut, hunlock, hscript, ok_bind, pure_eq_ok,
      bind_ok_eq_map]
    rfl
  · intro script entry
    rfl

theorem governs_unlockScript :
    GovernsBytes "unlockScript" ofDatum (fun entry => .ok entry.toDatum)
      (assignScript .unlock) := by
  apply governs_of_put
  · intro fields entry hread value
    simp only [ofDatum, bind_eq_ok_iff, pure_eq_ok, Except.ok.injEq] at hread
    obtain ⟨_, hprev, prevOut, hprevOut, _, hlock, lock, hscript, _, -, _, -, rfl⟩ := hread
    simp (disch := decide) only [ofDatum, Datum.field_put_of_ne, Datum.fieldOr_put_self,
      Datum.fieldOr_put_of_ne, hprev, hprevOut, hlock, hscript, ok_bind, pure_eq_ok,
      bind_ok_eq_map]
    rfl
  · intro script entry
    rfl

end Entry

/-! ## Parameters -/

namespace Output

theorem governs_parameters :
    GovernsParameters ofDatum (fun output => .ok output.toDatum)
      (fun ps output => { output with parameters := ps }) := by
  apply governs_of_put
  · intro fields output hread value
    simp only [ofDatum, bind_eq_ok_iff, pure_eq_ok, Except.ok.injEq] at hread
    obtain ⟨_, hhash, lockScriptHash, hlockScriptHash, _, -, _, -, _, htype, assetType, hassetType,
      _, hnumber, number, hamount, amount, hpositive, rfl⟩ := hread
    simp (disch := decide) only [ofDatum, Datum.field_put_of_ne, Datum.field_put_self, hhash,
      hlockScriptHash, htype, hassetType, hnumber, hamount, hpositive, ok_bind, pure_eq_ok,
      bind_ok_eq_map, map_ok]
  · intro ps output
    rfl

end Output

namespace Asset

theorem governs_parameters :
    GovernsParameters ofDatum (fun asset => .ok asset.toDatum)
      (fun ps asset => { asset with parameters := ps }) := by
  apply governs_of_put
  · intro fields asset hread value
    simp only [ofDatum, bind_eq_ok_iff, pure_eq_ok, Except.ok.injEq] at hread
    obtain ⟨_, htype, assetType, hassetType, _, hhash, lockScriptHash, hlockScriptHash, _, -, _, -,
      _, hnumber, number, hamount, _, hcreator, transactionHash, htransactionHash, _, hposition,
      index, hindex, amount, hpositive, rfl⟩ := hread
    simp (disch := decide) only [ofDatum, Datum.field_put_of_ne, Datum.field_put_self, htype,
      hassetType, hhash, hlockScriptHash, hnumber, hamount, hcreator, htransactionHash, hposition,
      hindex, hpositive, ok_bind, pure_eq_ok, bind_ok_eq_map, map_ok]
  · intro ps asset
    rfl

end Asset

namespace OutPoint

/-- The parameters of an out point may be left open. -/
theorem governs_parameters :
    Governs "parameters" ofDatum (fun point => .ok point.toDatum)
      (fun value => (Datum.present? value).mapM Datum.parameters) (Option.map Datum.byteLists)
      (fun ps point => { point with parameters := ps }) := by
  apply governs_of_put
  · intro fields point hread value
    simp only [ofDatum, bind_eq_ok_iff, pure_eq_ok, Except.ok.injEq] at hread
    obtain ⟨_, hhash, _, -, _, hcreator, transactionHash, htransactionHash, _, hposition, index,
      hindex, _, htype, assetType, hassetType, _, hnumber, number, hamount, lockScriptHash,
      hlockScriptHash, _, -, amount, hpositive, rfl⟩ := hread
    simp (disch := decide) only [ofDatum, Datum.field_put_of_ne, Datum.optional_put_of_ne,
      Datum.optional_put_self, hhash, hcreator, htransactionHash, hposition, hindex, htype,
      hassetType, hnumber, hamount, hlockScriptHash, hpositive, ok_bind, pure_eq_ok,
      bind_ok_eq_map, map_ok]
  · intro ps point
    rw [ok_bind, toDatum, commonFields]
    cases point.lockScriptHash with
    | none => cases ps <;> rfl
    | some hash => cases ps <;> rfl

end OutPoint

namespace Mint

/-- A mint in its envelope. -/
def enveloped (body : Datum) : Datum :=
  .object [("data", body)]

theorem ofDatum_object (fields : List (String × Datum)) :
    ofDatum (.object fields) =
      ofDatum (enveloped ((Keyed.get? "data" fields).getD (.object fields))) := by
  rw [ofDatum, ofDatum]
  rfl

/-- The checks on a mint leave its output alone. -/
theorem build_output {networkId shardId worldId metadata nonce : Datum} {output : MintOutput}
    {registrar : Option PlatformAddress} {mint : Mint}
    (hbuild : build networkId shardId worldId metadata output registrar nonce = .ok mint) :
    mint.output = output ∧ ∀ other,
      build networkId shardId worldId metadata other registrar nonce =
        .ok { mint with output := other } := by
  simp only [build, bind_eq_ok_iff, pure_eq_ok, Except.ok.injEq] at hbuild
  obtain ⟨network, hnetwork, shard, hshard, world, hworld, count, hcount, rfl⟩ := hbuild
  refine ⟨rfl, ?_⟩
  intro other
  simp only [build, hnetwork, hshard, hworld, hcount, ok_bind, pure_eq_ok]

/-- The output in the document of a mint. -/
def outputDatum (mint : Mint) : Except Fault Datum := do
  (← mint.toDatum.field "data").field "output"

theorem governs_parameters (body : List (String × Datum)) :
    GovernsParameters
      (fun output => ofDatum (enveloped (.object (Keyed.put "output" output body)))) outputDatum
      (fun ps mint => { mint with output := { mint.output with parameters := ps } }) := by
  have henveloped : ∀ d d', (enveloped d).fieldOr "data" d' = .ok d := fun d d' => rfl
  apply governs_of_put
  · intro fields mint hread value
    simp (disch := decide) only [ofDatum, henveloped, ok_bind, Datum.field_put_self,
      Datum.field_put_of_ne, Datum.fieldOr_put_of_ne, Datum.optional_put_of_ne,
      bind_eq_ok_iff] at hread
    obtain ⟨_, hopen, _, hregistrar, _, hnetwork, _, hshard, shardId, hshardId, _, hworld, worldId,
      hworldId, metadata, hmetadata, _, hhash, lockScriptHash, hlockScriptHash, _, -, ps, -, number,
      hnumber, amount, hamount, registrar, haddress, _, hcount, nonce, hnonce, hbuild⟩ := hread
    simp (disch := decide) only [ofDatum, henveloped, ok_bind, Datum.field_put_self,
      Datum.field_put_of_ne, Datum.fieldOr_put_of_ne, Datum.optional_put_of_ne, hopen, hregistrar,
      hnetwork, hshard, hshardId, hworld, hworldId, hmetadata, hhash, hlockScriptHash, hnumber,
      hamount, haddress, hcount, hnonce]
    obtain ⟨houtput, hother⟩ := build_output hbuild
    simp only [hother, houtput, bind_ok_eq_map]
  · intro ps mint
    rfl

end Mint

/-! ## All fields of byte strings -/

/-- A byte string in a document is read from what denotes one and from what is coerced into one,
which denotes none.  The rest is malformed, unless it is a number that is no size.  Lists of byte
strings are read item by item.  In entries, outputs, assets, out points and mints the fields with
byte strings decide by themselves, and are written as lists of bytes. -/
theorem documents_coerce_byteStrings (value : Datum) :
    (∀ name b, value.byteString name = .ok b ↔ value.Denotes b ∨ value.Coerces b) ∧
    (∀ b b', value.Coerces b → ¬value.Denotes b') ∧
    (∀ name fault, value.byteString name = .error fault →
      (∃ s, value = .text s ∧ fault = .malformed (.notHex name s)) ∨
        fault = .malformed (.notByteList name) ∨
          fault = .overflow ∧ ∃ n, value = .int n ∧ Datum.IsOversize n) ∧
    (∀ ps, value.parameters = .ok ps ↔ ∃ items, value.elements = .ok items ∧
      List.Forall₂ (fun item p => item.Denotes p ∨ item.Coerces p) items ps) ∧
    (∀ fault, value.parameters = .error fault → value.elements = .error fault ∨
      ∃ items, value.elements = .ok items ∧
        ∃ item ∈ items, item.byteString "parameter" = .error fault) ∧
    GovernsBytes "lockScript" Entry.ofDatum (fun entry => .ok entry.toDatum)
      (Entry.assignScript .lock) ∧
    GovernsBytes "unlockScript" Entry.ofDatum (fun entry => .ok entry.toDatum)
      (Entry.assignScript .unlock) ∧
    GovernsParameters Output.ofDatum (fun output => .ok output.toDatum)
      (fun ps output => { output with parameters := ps }) ∧
    GovernsParameters Asset.ofDatum (fun asset => .ok asset.toDatum)
      (fun ps asset => { asset with parameters := ps }) ∧
    Governs "parameters" OutPoint.ofDatum (fun point => .ok point.toDatum)
      (fun value => (Datum.present? value).mapM Datum.parameters) (Option.map Datum.byteLists)
      (fun ps point => { point with parameters := ps }) ∧
    (∀ fields, Mint.ofDatum (.object fields) =
      Mint.ofDatum (Mint.enveloped ((Keyed.get? "data" fields).getD (.object fields)))) ∧
    ∀ body, GovernsParameters
      (fun output => Mint.ofDatum (Mint.enveloped (.object (Keyed.put "output" output body))))
      Mint.outputDatum
      (fun ps mint => { mint with output := { mint.output with parameters := ps } }) := by
  exact ⟨fun name b => Datum.byteString_eq_ok_iff, fun b b' => Datum.Coerces.not_denotes,
    fun name fault => Datum.byteString_error, fun ps => Datum.parameters_eq_ok_iff,
    fun fault => Datum.parameters_error, Entry.governs_lockScript, Entry.governs_unlockScript,
    Output.governs_parameters, Asset.governs_parameters, OutPoint.governs_parameters,
    Mint.ofDatum_object, Mint.governs_parameters⟩

/-- An output whose parameters are given as a flat list of numbers. -/
def flatOutput : Datum :=
  .object [("lockScriptHash", .hex (FixedBytes.zero 32).bytes),
    ("parameters", .list [.int 1, .int 2]), ("assetType", .hex (FixedBytes.zero 32).bytes),
    ("amount", .int 1)]

/-- The numbers of a flat list become runs of zero bytes, though no number denotes a byte string. -/
theorem ofDatum_flatOutput :
    (Output.ofDatum flatOutput).map Output.parameters = .ok [[0], [0, 0]] ∧
      ∀ n b, ¬(Datum.int n).Denotes b := by
  refine ⟨by decide +kernel, ?_⟩
  intro n b hdenotes
  cases hdenotes

end ShardLedger
