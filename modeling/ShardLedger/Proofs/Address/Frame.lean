import ShardLedger.Address.Platform
import ShardLedger.Proofs.Address.Bech32
import ShardLedger.Proofs.Document.Field

/-!
# Addresses read back

The text of an address is taken apart into the same network, kind and payload, and no
other text is.  The same holds of platform addresses: an address and the text that it is
read from determine each other.
-/

namespace ShardLedger

/-- All characters of a text are ASCII characters. -/
def Text.IsAscii (s : String) : Prop :=
  ∀ c ∈ s.toList, c.toNat < 0x80

instance (s : String) : Decidable (Text.IsAscii s) :=
  List.decidableBAll (fun c : Char => c.toNat < 0x80) s.toList

theorem Network.ext_text {network other : Network} (htext : network.text = other.text) :
    network = other := by
  cases network
  cases other
  cases htext
  rfl

theorem Network.exists_toList_eq (network : Network) :
    ∃ a b, network.text.toList = [a, b] ∧ Text.isLowered a = true ∧ Text.isLowered b = true := by
  have hlowered := network.lowered
  obtain ⟨a, b, hchars⟩ := List.length_eq_two.mp network.length_text
  rw [hchars] at hlowered
  refine ⟨a, b, hchars, ?_⟩
  simpa using hlowered

theorem NetworkId.ofDatum_text (network : NetworkId) :
    NetworkId.ofDatum (.text network.text) = .ok network := by
  have hread : NetworkId.ofText? network.text = some network :=
    dif_pos ⟨network.length_text, network.loweredAscii⟩
  simp only [NetworkId.ofDatum, hread]

namespace AddressFrame

/-- The characters behind the front of an address. -/
def body (front : List Char) (payload : Bytes) : List Char :=
  let words := Bech32.toWords payload
  (words ++ Bech32.checksum front words).map Bech32.character

theorem lt_of_mem_words {front : List Char} {payload : Bytes} {w : Nat}
    (hmem : w ∈ Bech32.toWords payload ++ Bech32.checksum front (Bech32.toWords payload)) :
    w < 32 := by
  rcases List.mem_append.mp hmem with hmem | hmem
  · exact Bech32.lt_of_mem_toWords hmem
  · exact Bech32.lt_of_mem_checksum hmem

theorem isLowered_of_mem_body {front : List Char} {payload : Bytes} {c : Char}
    (hmem : c ∈ body front payload) : Text.isLowered c = true := by
  obtain ⟨w, hw, rfl⟩ := List.mem_map.mp hmem
  exact Bech32.isLowered_character w (lt_of_mem_words hw)

/-- Lowered characters in front of their body are the text of an address. -/
theorem ofText_of_toList {s : String} {a b kind : Char} {payload : Bytes}
    (hs : s.toList = a :: b :: kind :: body [a, b, kind] payload)
    (ha : Text.isLowered a = true) (hb : Text.isLowered b = true)
    (hkind : Text.isLowered kind = true) :
    ∃ network : Network, network.text = String.ofList [a, b] ∧
      ofText s = .ok ⟨network, kind, payload⟩ := by
  have hlowered : s.toList.all Text.isLowered = true := by
    have hbody : (body [a, b, kind] payload).all Text.isLowered = true :=
      List.all_eq_true.mpr fun c hmem => isLowered_of_mem_body hmem
    simp only [hs, List.all_cons, ha, hb, hkind, hbody, Bool.and_self]
  have hlength : ¬s.toList.length < frontLength + Bech32.checksumLength := by
    simp only [hs, body, List.length_cons, List.length_map, List.length_append,
      Bech32.length_checksum, frontLength, Bech32.checksumLength]
    omega
  unfold ofText
  simp only
  rw [dif_pos hlowered, if_neg hlength]
  split
  next a' b' kind' rest hl hcs _ =>
    rw [hs] at hcs
    simp only [List.cons.injEq] at hcs
    obtain ⟨rfl, rfl, rfl, rfl⟩ := hcs
    have hwords := Bech32.mapM_word?_character
      (fun w (hw : w ∈ Bech32.toWords payload ++
        Bech32.checksum [a, b, kind] (Bech32.toWords payload)) => lt_of_mem_words hw)
    have htake : List.take ((Bech32.toWords payload ++ Bech32.checksum [a, b, kind]
        (Bech32.toWords payload)).length - Bech32.checksumLength)
        (Bech32.toWords payload ++ Bech32.checksum [a, b, kind] (Bech32.toWords payload)) =
          Bech32.toWords payload := by
      rw [List.length_append, Bech32.length_checksum, Nat.add_sub_cancel, List.take_left]
    simp only [body, hwords, Bech32.isChecked_append_checksum, if_true, htake,
      Bech32.ofWords?_toWords]
    exact ⟨_, rfl, rfl⟩
  next hl hshort =>
    have hfront : (a :: b :: kind :: body [a, b, kind] payload).all Text.isLowered = true :=
      hs ▸ hl
    exact (hshort a b kind _ hfront hs (proof_irrel_heq hl hfront)).elim

/-- The text of an address is taken apart into its parts. -/
theorem ofText_toText {frame : AddressFrame} (hkind : Text.isLowered frame.kind = true) :
    ofText frame.toText = .ok frame := by
  obtain ⟨network, kind, payload⟩ := frame
  obtain ⟨a, b, hchars, ha, hb⟩ := network.exists_toList_eq
  have htext : (toText ⟨network, kind, payload⟩).toList =
      a :: b :: kind :: body [a, b, kind] payload := by
    rw [toText, encode, String.toList_ofList, hchars]
    rfl
  obtain ⟨network', hnetwork, hread⟩ := ofText_of_toList htext ha hb hkind
  have hsame : network' = network := by
    apply Network.ext_text
    rw [hnetwork, ← hchars, String.ofList_toList]
  rw [hread, hsame]

/-- What a text that is taken apart looks like. -/
theorem exists_words_of_ofText {s : String} {frame : AddressFrame}
    (hread : ofText s = .ok frame) :
    ∃ a b words, s.toList = a :: b :: frame.kind :: words.map Bech32.character ∧
      frame.network.text = String.ofList [a, b] ∧ (∀ w ∈ words, w < 32) ∧
      Bech32.checksumLength ≤ words.length ∧
      Bech32.isChecked [a, b, frame.kind] words = true ∧
      Bech32.ofWords? (words.take (words.length - Bech32.checksumLength)) = some frame.payload := by
  unfold ofText at hread
  simp only at hread
  split at hread
  next hlowered =>
    split at hread
    next => cases hread
    next hlong =>
      split at hread
      next a b kind body _ _ hs _ =>
        cases hbody : body.mapM Bech32.word? with
        | none =>
            simp only [hbody] at hread
            cases hread
        | some words =>
            obtain ⟨hwords, rfl⟩ := Bech32.map_character_of_mapM hbody
            simp only [hbody] at hread
            rw [hs] at hlong
            simp only [List.length_cons, List.length_map, frontLength] at hlong
            split at hread
            next hchecked =>
              cases hpayload : Bech32.ofWords?
                  (words.take (words.length - Bech32.checksumLength)) with
              | none =>
                  simp only [hpayload] at hread
                  cases hread
              | some payload =>
                  simp only [hpayload] at hread
                  cases hread
                  exact ⟨a, b, words, hs, rfl, hwords, by omega, hchecked, hpayload⟩
            next => cases hread
      next => cases hread
  next => cases hread

/-- A text that is taken apart is the text of its parts. -/
theorem toText_of_ofText {s : String} {frame : AddressFrame} (hread : ofText s = .ok frame) :
    frame.toText = s := by
  obtain ⟨a, b, words, hs, hnetwork, hwords, hlength, hchecked, hpayload⟩ :=
    exists_words_of_ofText hread
  obtain ⟨data, last, rfl, hlast⟩ : ∃ data last, words = data ++ last ∧
      last.length = Bech32.checksumLength := by
    refine ⟨words.take (words.length - Bech32.checksumLength),
      words.drop (words.length - Bech32.checksumLength), (List.take_append_drop _ _).symm, ?_⟩
    rw [List.length_drop]
    omega
  -- Both parts of the body are determined: the data by the payload, the checksum by the data.
  have hdata : data = Bech32.toWords frame.payload := by
    rw [List.length_append, hlast, Nat.add_sub_cancel, List.take_left] at hpayload
    have hsmall : ∀ w ∈ data, w < 32 := fun w hw => hwords w (List.mem_append_left last hw)
    exact (Bech32.toWords_of_ofWords? hsmall hpayload).symm
  have hchecksum : last = Bech32.checksum [a, b, frame.kind] data := by
    have hsmall : ∀ w ∈ last, w < 32 := fun w hw => hwords w (List.mem_append_right data hw)
    exact Bech32.eq_checksum_of_isChecked hlast hsmall hchecked
  apply String.toList_inj.mp
  rw [toText, encode, String.toList_ofList, hnetwork, String.toList_ofList, hs, hchecksum, hdata]
  rfl

/-- Framing and taking apart are inverse to each other.  Any payload behind three lowered characters
is found again with them, and a text that is taken apart is the only one with its parts. -/
theorem framing_inverse :
    (∀ (a b kind : Char) (payload : Bytes), Text.isLowered a = true → Text.isLowered b = true →
      Text.isLowered kind = true →
        ∃ network : Network, network.text = String.ofList [a, b] ∧
          ofText (encode [a, b, kind] payload) = .ok ⟨network, kind, payload⟩) ∧
    (∀ (s : String) (frame : AddressFrame), ofText s = .ok frame →
      encode (frame.network.text.toList ++ [frame.kind]) frame.payload = s) ∧
    ∀ (s t : String) (frame : AddressFrame), ofText s = .ok frame → ofText t = .ok frame →
      s = t := by
  refine ⟨?_, fun s frame => toText_of_ofText, ?_⟩
  · intro a b kind payload ha hb hkind
    have hs : (encode [a, b, kind] payload).toList = a :: b :: kind :: body [a, b, kind] payload :=
      String.toList_ofList
    exact ofText_of_toList hs ha hb hkind
  · intro s t frame hs ht
    rw [← toText_of_ofText hs, toText_of_ofText ht]

/-- A version byte and twenty more bytes, of which the last one is given. -/
def sevens (last : UInt8) : Bytes :=
  0 :: (List.replicate 19 7 ++ [last])

theorem ofText_sevens :
    ofText "tccqqrswpc8qurswpc8qurswpc8qurswpc8qulxldvg" =
      .ok ⟨NetworkId.standard.toNetwork, 'c', sevens 7⟩ := by
  decide +kernel

theorem framing_inverse_sevens :
    (∃ network : Network, network.text = String.ofList ['t', 'c'] ∧
      ofText (encode ['t', 'c', 'c'] (sevens 7)) = .ok ⟨network, 'c', sevens 7⟩) ∧
    toText ⟨NetworkId.standard.toNetwork, 'c', sevens 7⟩ =
      "tccqqrswpc8qurswpc8qurswpc8qurswpc8qulxldvg" ∧
    ∀ s, ofText s = .ok ⟨NetworkId.standard.toNetwork, 'c', sevens 7⟩ →
      s = "tccqqrswpc8qurswpc8qurswpc8qurswpc8qulxldvg" := by
  obtain ⟨hforth, hback, hunique⟩ := framing_inverse
  refine ⟨hforth 't' 'c' 'c' (sevens 7) (by decide) (by decide) (by decide), ?_, ?_⟩
  · exact hback _ _ ofText_sevens
  · intro s hs
    exact hunique _ _ _ hs ofText_sevens

end AddressFrame

/-- The text of a platform address is read as the address. -/
theorem PlatformAddress.parse_text (address : PlatformAddress) :
    parse .null (.text address.toText) = .ok address := by
  have hkind : Text.isLowered kind = true := by decide
  have hframe : AddressFrame.ofText address.toText =
      .ok ⟨address.network, kind, addressVersion :: address.accountId.bytes⟩ :=
    AddressFrame.ofText_toText hkind
  have haccount : accountId? (addressVersion :: address.accountId.bytes) =
      some address.accountId := by
    rw [accountId?, if_pos rfl, FixedBytes.ofBytes?_bytes]
  have hnetwork : Network.check .null address.network = .ok () := if_pos (Or.inl rfl)
  simp only [parse, AddressFrame.ofDatum, hframe, ok_bind, ne_eq, not_true_eq_false, if_false,
    hnetwork, haccount, pure_eq_ok]

theorem PlatformAddress.accountId?_eq_some {payload : Bytes} {accountId : AccountId}
    (haccount : accountId? payload = some accountId) :
    payload = addressVersion :: accountId.bytes := by
  cases payload with
  | nil => cases haccount
  | cons version rest =>
      rw [accountId?, Option.ite_none_right_eq_some] at haccount
      obtain ⟨rfl, hrest⟩ := haccount
      rw [FixedBytes.ofBytes?_eq_some_iff.mp hrest]

/-- A text that is read as a platform address is the text of the address. -/
theorem PlatformAddress.toText_of_parse {expected : Datum} {s : String}
    {address : PlatformAddress} (hread : parse expected (.text s) = .ok address) :
    address.toText = s := by
  obtain ⟨frame, hframe, hread⟩ := bind_eq_ok_iff.mp hread
  split at hread
  next => cases hread
  next hkind =>
    obtain ⟨_, -, hread⟩ := bind_eq_ok_iff.mp hread
    cases haccount : accountId? frame.payload with
    | none =>
        simp only [haccount] at hread
        cases hread
    | some accountId =>
        simp only [haccount] at hread
        cases hread
        rw [toText, ← accountId?_eq_some haccount, ← not_not.mp hkind]
        exact AddressFrame.toText_of_ofText hframe

end ShardLedger
