import ShardLedger.Proofs.Rlp.Header

/-!
# Reading items

Reading an item succeeds exactly on data that start with the encoding of the item.
The data may go on in any way behind it, and so may the data behind an item inside a
list, which is read from what is left of the whole rather than from the list's payload.
-/

namespace ShardLedger.Rlp

/-- Reading from the front of the data gives this item and takes this many bytes. -/
def Reads (data : Bytes) (item : Item) (size : Nat) : Prop :=
  (readItem data).map Subtype.val = .ok (item, size)

theorem Reads.bounds {data : Bytes} {item : Item} {size : Nat} (hread : Reads data item size) :
    0 < size ∧ size ≤ data.length := by
  unfold Reads at hread
  cases hresult : readItem data with
  | error flaw =>
      rw [hresult] at hread
      cases hread
  | ok read =>
      rw [hresult] at hread
      have hval : read.1 = (item, size) := Except.ok.inj hread
      have hbounds := read.2
      rw [hval] at hbounds
      exact hbounds

theorem decode_eq_ok_iff {data : Bytes} {item : Item} :
    decode data = .ok item ↔ Reads data item data.length := by
  unfold decode readItemAt Reads
  rw [List.drop_zero]
  cases readItem data with
  | error flaw => simp [bind, Except.bind, Except.map]
  | ok read =>
      obtain ⟨⟨found, size⟩, bounds⟩ := read
      simp only [Except.map, bind, Except.bind, Nat.zero_add]
      split
      next hsize => simp [hsize, pure, Except.pure]
      next hsize => simp [hsize]

theorem stringOf_eq_ok_iff {payload value : Bytes} :
    stringOf payload = .ok value ↔ payload = value ∧ ∀ b, value = [b] → ¬b < 0x80 := by
  unfold stringOf
  split
  next b =>
    split
    next hlow =>
      constructor
      · intro herror
        cases herror
      · rintro ⟨rfl, hhigh⟩
        exact absurd hlow (hhigh b rfl)
    next hhigh =>
      constructor
      · intro hok
        cases hok
        refine ⟨rfl, fun b' hb => ?_⟩
        cases hb
        exact hhigh
      · rintro ⟨rfl, -⟩
        rfl
  next hlong =>
    constructor
    · intro hok
      cases hok
      exact ⟨rfl, fun b hb => absurd hb (hlong b)⟩
    · rintro ⟨rfl, -⟩
      rfl

/-! ## What the first byte decides -/

section

variable {code : UInt8} {rest : Bytes} {item : Item} {size : Nat}

theorem reads_cons_of_single (hlow : code < 0x80) :
    Reads (code :: rest) item size ↔ item = .bytes [code] ∧ size = 1 := by
  rw [Reads, readItem.eq_def]
  simp only [if_pos hlow, Except.map, Except.ok.injEq, Prod.mk.injEq]
  constructor
  · rintro ⟨rfl, rfl⟩
    exact ⟨rfl, rfl⟩
  · rintro ⟨rfl, rfl⟩
    exact ⟨rfl, rfl⟩

theorem reads_cons_of_string (hhigh : ¬code < 0x80) (hstring : code < 0xc0) :
    Reads (code :: rest) item size ↔
      ∃ headerSize length value, readHeader 0x80 0xb7 code rest = .ok (headerSize, length) ∧
        headerSize + length ≤ rest.length ∧
        stringOf ((rest.drop headerSize).take length) = .ok value ∧
        item = .bytes value ∧ size = 1 + headerSize + length := by
  rw [Reads, readItem.eq_def]
  simp only [if_neg hhigh, if_pos hstring]
  constructor
  · intro hok
    split at hok
    next => cases hok
    next headerSize length hheader =>
      split at hok
      next hfits =>
        split at hok
        next => cases hok
        next value hvalue =>
          cases hok
          exact ⟨headerSize, length, value, hheader, hfits, hvalue, rfl, rfl⟩
      next => cases hok
  · rintro ⟨headerSize, length, value, hheader, hfits, hvalue, rfl, rfl⟩
    simp only [hheader, hfits, dif_pos, hvalue]
    rfl

theorem reads_cons_of_list (hhigh : ¬code < 0x80) (hlist : ¬code < 0xc0) :
    Reads (code :: rest) item size ↔
      ∃ headerSize length items, readHeader 0xc0 0xf7 code rest = .ok (headerSize, length) ∧
        headerSize + length ≤ rest.length ∧
        readItems (rest.drop headerSize) length = .ok items ∧
        item = .list items ∧ size = 1 + headerSize + length := by
  rw [Reads, readItem.eq_def]
  simp only [if_neg hhigh, if_neg hlist]
  constructor
  · intro hok
    split at hok
    next => cases hok
    next headerSize length hheader =>
      split at hok
      next hfits =>
        split at hok
        next => cases hok
        next items hitems =>
          cases hok
          exact ⟨headerSize, length, items, hheader, hfits, hitems, rfl, rfl⟩
      next => cases hok
  · rintro ⟨headerSize, length, items, hheader, hfits, hitems, rfl, rfl⟩
    simp only [hheader, hfits, dif_pos, hitems]
    rfl

end

theorem not_reads_nil {item : Item} {size : Nat} : ¬Reads [] item size := by
  intro hread
  have hpos := hread.bounds.1
  have hle := hread.bounds.2
  rw [List.length_nil] at hle
  omega

/-- A byte string is read from a byte that stands for itself, or from behind a header. -/
theorem reads_bytes_iff {data value : Bytes} {size : Nat} :
    Reads data (.bytes value) size ↔
      (∃ b rest, data = b :: rest ∧ b < 0x80 ∧ value = [b] ∧ size = 1) ∨
        (∀ b, value = [b] → ¬b < 0x80) ∧ Framed 0x80 0xb7 data value size := by
  constructor
  · intro hread
    cases data with
    | nil => exact absurd hread not_reads_nil
    | cons code rest =>
        by_cases hlow : code < 0x80
        · obtain ⟨hitem, rfl⟩ := (reads_cons_of_single hlow).mp hread
          exact Or.inl ⟨code, rest, rfl, hlow, Item.bytes.inj hitem, rfl⟩
        · have hstring : code < 0xc0 := by
            refine Decidable.byContradiction fun hlist => ?_
            obtain ⟨_, _, _, _, _, _, hitem, _⟩ := (reads_cons_of_list hlow hlist).mp hread
            cases hitem
          obtain ⟨headerSize, length, found, hheader, hfits, hfound, hitem, rfl⟩ :=
            (reads_cons_of_string hlow hstring).mp hread
          obtain rfl : value = found := Item.bytes.inj hitem
          obtain ⟨hpayload, hvalue⟩ := stringOf_eq_ok_iff.mp hfound
          obtain rfl : value.length = length := by
            rw [← hpayload, List.length_take, List.length_drop]
            omega
          exact Or.inr ⟨hvalue, code, rest, headerSize, rfl, Nat.not_lt.mp hlow,
            Nat.le_of_lt_succ hstring, hheader, hfits, hpayload, rfl⟩
  · rintro (⟨b, rest, rfl, hlow, rfl, rfl⟩ | ⟨hvalue, code, rest, headerSize, rfl, hcode, hcode',
      hheader, hfits, hpayload, rfl⟩)
    · exact (reads_cons_of_single hlow).mpr ⟨rfl, rfl⟩
    · have hhigh : ¬code < 0x80 := Nat.not_lt.mpr hcode
      have hstring : code < 0xc0 := Nat.lt_succ_of_le hcode'
      exact (reads_cons_of_string hhigh hstring).mpr ⟨headerSize, value.length, value, hheader,
        hfits, stringOf_eq_ok_iff.mpr ⟨hpayload, hvalue⟩, rfl, rfl⟩

/-- A list is read from behind a header, its items from the data behind the header. -/
theorem reads_list_iff {data : Bytes} {items : List Item} {size : Nat} :
    Reads data (.list items) size ↔
      ∃ code rest headerSize length, data = code :: rest ∧ 0xc0 ≤ code.toNat ∧
        readHeader 0xc0 0xf7 code rest = .ok (headerSize, length) ∧
        headerSize + length ≤ rest.length ∧
        readItems (rest.drop headerSize) length = .ok items ∧
        size = 1 + headerSize + length := by
  constructor
  · intro hread
    cases data with
    | nil => exact absurd hread not_reads_nil
    | cons code rest =>
        have hlow : ¬code < 0x80 := by
          intro hlow
          obtain ⟨hitem, -⟩ := (reads_cons_of_single hlow).mp hread
          cases hitem
        have hlist : ¬code < 0xc0 := by
          intro hstring
          obtain ⟨_, _, _, _, _, _, hitem, _⟩ := (reads_cons_of_string hlow hstring).mp hread
          cases hitem
        obtain ⟨headerSize, length, found, hheader, hfits, hfound, hitem, rfl⟩ :=
          (reads_cons_of_list hlow hlist).mp hread
        obtain rfl : items = found := Item.list.inj hitem
        exact ⟨code, rest, headerSize, length, rfl, Nat.not_lt.mp hlist, hheader, hfits, hfound,
          rfl⟩
  · rintro ⟨code, rest, headerSize, length, rfl, hcode, hheader, hfits, hitems, rfl⟩
    have hlist : ¬code < 0xc0 := Nat.not_lt.mpr hcode
    have hhigh : ¬code < 0x80 := by
      intro hlow
      have hlow' : code.toNat < 0x80 := hlow
      omega
    exact (reads_cons_of_list hhigh hlist).mpr
      ⟨headerSize, length, items, hheader, hfits, hitems, rfl, rfl⟩

/-! ## The items of a list -/

theorem readItems_nil_iff {data : Bytes} {length : Nat} :
    readItems data length = .ok [] ↔ length = 0 := by
  rw [readItems.eq_def]
  split
  next hzero => simp [hzero]
  next hpos =>
    constructor
    · intro hok
      split at hok
      next => cases hok
      next item size bounds hitem =>
        split at hok
        next => cases hok
        next =>
          split at hok
          next => cases hok
          next => cases hok
    · intro hzero
      exact absurd hzero hpos

/-- The items of a list are read one after the other, each from all of the data that are left. -/
theorem readItems_cons_iff {data : Bytes} {length : Nat} {item : Item} {items : List Item} :
    readItems data length = .ok (item :: items) ↔
      ∃ size, Reads data item size ∧ size ≤ length ∧
        readItems (data.drop size) (length - size) = .ok items := by
  rw [readItems.eq_def]
  split
  next hzero =>
    constructor
    · intro hok
      cases hok
    · rintro ⟨size, hread, hle, -⟩
      have hpos := hread.bounds.1
      omega
  next hpos =>
    cases hitem : readItem data with
    | error flaw => simp [Reads, hitem, Except.map]
    | ok read =>
        obtain ⟨⟨found, size⟩, bounds⟩ := read
        constructor
        · intro hok
          simp only at hok
          split at hok
          next => cases hok
          next hfits =>
            split at hok
            next => cases hok
            next later hlater =>
              cases hok
              refine ⟨size, ?_, Nat.not_lt.mp hfits, hlater⟩
              rw [Reads, hitem]
              rfl
        · rintro ⟨size', hread, hle, hlater⟩
          rw [Reads, hitem] at hread
          cases hread
          simp only [if_neg (Nat.not_lt.mpr hle), hlater]

/-! ## Reading is the inverse of encoding -/

mutual

/-- Every payload in the item is short enough for a header. -/
def Item.Fits : Item → Prop
  | .bytes value => value.length < lengthLimit
  | .list items => (Item.encodeAll items).length < lengthLimit ∧ Item.AllFit items

/-- Every payload in the items is short enough for a header. -/
def Item.AllFit : List Item → Prop
  | [] => True
  | item :: rest => item.Fits ∧ Item.AllFit rest

end

theorem encodeBytes_of_high {value : Bytes} (hvalue : ∀ b, value = [b] → ¬b < 0x80) :
    encodeBytes value = header 0x80 0xb7 value.length ++ value := by
  unfold encodeBytes
  split
  next b => rw [if_neg (hvalue b rfl), List.length_singleton]
  next => rfl

theorem encodeBytes_of_low {b : UInt8} (hlow : b < 0x80) : encodeBytes [b] = [b] := by
  rw [encodeBytes, if_pos hlow]

theorem reads_bytes_iff_encode {data value : Bytes} {size : Nat} :
    Reads data (.bytes value) size ↔
      (Item.bytes value).Fits ∧ size ≤ data.length ∧
        data.take size = (Item.bytes value).encode := by
  rw [reads_bytes_iff, Item.Fits, Item.encode]
  by_cases hlow : ∃ b, value = [b] ∧ b < 0x80
  · obtain ⟨b, rfl, hb⟩ := hlow
    rw [encodeBytes_of_low hb]
    constructor
    · rintro (⟨b', rest, rfl, -, hvalue, rfl⟩ | ⟨hvalue, -⟩)
      · cases hvalue
        exact ⟨show 1 < lengthLimit by decide, by simp, by simp⟩
      · exact absurd hb (hvalue b rfl)
    · rintro ⟨-, hsize, htake⟩
      have hone : size = 1 := by
        have hlength := congrArg List.length htake
        rw [List.length_take, List.length_singleton] at hlength
        omega
      obtain ⟨rest, rfl⟩ : ∃ rest, data = b :: rest :=
        ⟨data.drop size, by rw [← List.singleton_append, ← htake, List.take_append_drop]⟩
      exact Or.inl ⟨b, rest, rfl, hb, rfl, hone⟩
  · have hvalue : ∀ b, value = [b] → ¬b < 0x80 := fun b hb hlt => hlow ⟨b, hb, hlt⟩
    rw [encodeBytes_of_high hvalue, framed_string_iff]
    constructor
    · rintro (⟨b, -, -, hb, hvalue', -⟩ | ⟨-, hframed⟩)
      · exact absurd hb (hvalue b hvalue')
      · exact hframed
    · intro hframed
      exact Or.inr ⟨hvalue, hframed⟩

-- The recursion is on the item, so that both directions go through the same cases: the bytes of an
-- item in a list are split off what is left of the data, not off the list's payload.
mutual

/-- An item is read exactly where its encoding stands, whatever follows it. -/
theorem reads_iff : ∀ (item : Item) (data : Bytes) (size : Nat),
    Reads data item size ↔ item.Fits ∧ size ≤ data.length ∧ data.take size = item.encode
  | .bytes value, data, size => reads_bytes_iff_encode
  | .list items, data, size => by
      rw [reads_list_iff, Item.Fits, Item.encode]
      constructor
      · rintro ⟨code, rest, headerSize, length, rfl, hcode, hheader, hfits, hitems, rfl⟩
        obtain ⟨hall, hlength, htake⟩ := (readItems_iff items _ _).mp hitems
        obtain rfl : length = (Item.encodeAll items).length := by
          rw [← htake, List.length_take]
          omega
        have hcode' : code.toNat ≤ 0xf7 + 8 := Nat.le_of_lt_succ code.toNat_lt
        obtain ⟨hlimit, hframed⟩ := framed_list_iff.mp
          ⟨code, rest, headerSize, rfl, hcode, hcode', hheader, hfits, htake, rfl⟩
        exact ⟨⟨hlimit, hall⟩, hframed⟩
      · rintro ⟨⟨hlimit, hall⟩, hframed⟩
        obtain ⟨code, rest, headerSize, rfl, hcode, -, hheader, hfits, htake, rfl⟩ :=
          framed_list_iff.mpr ⟨hlimit, hframed⟩
        have hroom : (Item.encodeAll items).length ≤ (rest.drop headerSize).length := by
          rw [List.length_drop]
          omega
        exact ⟨code, rest, headerSize, _, rfl, hcode, hheader, hfits,
          (readItems_iff items _ _).mpr ⟨hall, hroom, htake⟩, rfl⟩

theorem readItems_iff : ∀ (items : List Item) (data : Bytes) (length : Nat),
    readItems data length = .ok items ↔
      Item.AllFit items ∧ length ≤ data.length ∧ data.take length = Item.encodeAll items
  | [], data, length => by
      rw [readItems_nil_iff, Item.AllFit, Item.encodeAll]
      constructor
      · rintro rfl
        exact ⟨trivial, Nat.zero_le _, List.take_zero⟩
      · rintro ⟨-, hlength, htake⟩
        have hnil := congrArg List.length htake
        rw [List.length_take, List.length_nil] at hnil
        omega
  | item :: items, data, length => by
      rw [readItems_cons_iff, Item.AllFit, Item.encodeAll]
      constructor
      · rintro ⟨size, hread, hle, hitems⟩
        obtain ⟨hfits, hsize, htake⟩ := (reads_iff item data size).mp hread
        obtain ⟨hall, hrest, htakeRest⟩ := (readItems_iff items _ _).mp hitems
        rw [List.length_drop] at hrest
        refine ⟨⟨hfits, hall⟩, by omega, ?_⟩
        rw [show length = size + (length - size) by omega, List.take_add, htake, htakeRest]
      · rintro ⟨⟨hfits, hall⟩, hlength, htake⟩
        have hcount := congrArg List.length htake
        rw [List.length_take, List.length_append] at hcount
        have hfirst : data.take item.encode.length = item.encode := by
          have hmin : min item.encode.length length = item.encode.length := by omega
          rw [← hmin, ← List.take_take, htake, List.take_left]
        have hrest : (data.drop item.encode.length).take (length - item.encode.length) =
            Item.encodeAll items := by
          rw [← List.drop_take, htake, List.drop_left]
        refine ⟨item.encode.length, (reads_iff item data _).mpr ⟨hfits, by omega, hfirst⟩,
          by omega, (readItems_iff items _ _).mpr ⟨hall, ?_, hrest⟩⟩
        rw [List.length_drop]
        omega

end

/-! ## Whole encodings -/

mutual

theorem Item.fits_of_length_lt : ∀ {item : Item}, item.encode.length < lengthLimit → item.Fits
  | .bytes value, hlength => by
      rw [Item.encode] at hlength
      rw [Item.Fits]
      by_cases hsingle : ∃ b, value = [b]
      · obtain ⟨b, rfl⟩ := hsingle
        exact show 1 < lengthLimit by decide
      · have hvalue : ∀ b, value = [b] → ¬b < 0x80 := fun b hb => absurd ⟨b, hb⟩ hsingle
        rw [encodeBytes_of_high hvalue, List.length_append] at hlength
        omega
  | .list items, hlength => by
      rw [Item.encode, List.length_append] at hlength
      have hpayload : (Item.encodeAll items).length < lengthLimit := by omega
      rw [Item.Fits]
      exact ⟨hpayload, Item.allFit_of_length_lt hpayload⟩

theorem Item.allFit_of_length_lt : ∀ {items : List Item},
    (Item.encodeAll items).length < lengthLimit → Item.AllFit items
  | [], _ => by
      rw [Item.AllFit]
      trivial
  | item :: items, hlength => by
      rw [Item.encodeAll, List.length_append] at hlength
      rw [Item.AllFit]
      exact ⟨Item.fits_of_length_lt (by omega), Item.allFit_of_length_lt (by omega)⟩

end

theorem decode_eq_ok_iff_encode {data : Bytes} {item : Item} :
    decode data = .ok item ↔ item.Fits ∧ item.encode = data := by
  rw [decode_eq_ok_iff, reads_iff, List.take_length]
  constructor
  · rintro ⟨hfits, -, hdata⟩
    exact ⟨hfits, hdata.symm⟩
  · rintro ⟨hfits, hdata⟩
    exact ⟨hfits, Nat.le_refl _, hdata.symm⟩

theorem decode_encode {item : Item} (hlength : item.encode.length < lengthLimit) :
    decode item.encode = .ok item :=
  decode_eq_ok_iff_encode.mpr ⟨Item.fits_of_length_lt hlength, rfl⟩

/-- Items whose encodings are the same are the same. -/
theorem Item.encode_inj {item other : Item} (hlength : item.encode.length < lengthLimit) :
    item.encode = other.encode ↔ item = other := by
  constructor
  · intro hencode
    have hitem := decode_encode hlength
    rw [hencode] at hlength hitem
    rw [decode_encode hlength] at hitem
    exact (Except.ok.inj hitem).symm
  · rintro rfl
    rfl

end ShardLedger.Rlp
