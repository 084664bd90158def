import ShardLedger.Proofs.Rlp.Scan

/-!
# Progress within bounds

Reading an item ends behind its offset and within the data, on every input.  The items of a
list lie one behind the other and fill its declared payload.  Every item takes a byte of its
own, so that short data never make a large tree.
-/

namespace ShardLedger.Rlp

/-! ## The size of a tree -/

mutual

/-- The number of byte strings and lists in an item, itself included. -/
def Item.nodes : Item → Nat
  | .bytes _ => 1
  | .list items => 1 + Item.allNodes items

/-- The number of byte strings and lists in some items. -/
def Item.allNodes : List Item → Nat
  | [] => 0
  | item :: items => item.nodes + Item.allNodes items

end

theorem length_header_pos (short long length : Nat) : 0 < (header short long length).length := by
  unfold header
  split <;> exact Nat.succ_pos _

theorem length_encodeBytes_pos (value : Bytes) : 0 < (encodeBytes value).length := by
  unfold encodeBytes
  split
  next b =>
    split
    · exact Nat.one_pos
    · rw [List.length_append]
      exact Nat.add_pos_left (length_header_pos ..) _
  next =>
    rw [List.length_append]
    exact Nat.add_pos_left (length_header_pos ..) _

mutual

/-- Each node of an item has a byte of the encoding to itself: the first of its own. -/
theorem Item.nodes_le_length_encode : ∀ item : Item, item.nodes ≤ item.encode.length
  | .bytes value => by
      rw [Item.nodes, Item.encode]
      exact length_encodeBytes_pos value
  | .list items => by
      rw [Item.nodes, Item.encode, List.length_append]
      exact Nat.add_le_add (length_header_pos ..) (Item.allNodes_le_length_encodeAll items)

theorem Item.allNodes_le_length_encodeAll : ∀ items : List Item,
    Item.allNodes items ≤ (Item.encodeAll items).length
  | [] => Nat.zero_le _
  | item :: items => by
      rw [Item.allNodes, Item.encodeAll, List.length_append]
      exact Nat.add_le_add item.nodes_le_length_encode (Item.allNodes_le_length_encodeAll items)

end

/-! ## The slice of an item -/

/-- An item is read from the bytes of its encoding, which alone decode to it. -/
theorem slice_of_readItemAt {data : Bytes} {offset next : Nat} {item : Item}
    (hread : readItemAt data offset = .ok (item, next)) :
    (data.drop offset).take (next - offset) = item.encode ∧
      decode ((data.drop offset).take (next - offset)) = .ok item := by
  obtain ⟨size, hreads, rfl⟩ := readItemAt_eq_ok_iff.mp hread
  obtain ⟨hfits, -, htake⟩ := (reads_iff item _ _).mp hreads
  rw [Nat.add_sub_cancel_left]
  exact ⟨htake, decode_eq_ok_iff_encode.mpr ⟨hfits, htake.symm⟩⟩

theorem nodes_le_of_readItemAt {data : Bytes} {offset next : Nat} {item : Item}
    (hread : readItemAt data offset = .ok (item, next)) : item.nodes ≤ next - offset := by
  obtain ⟨hslice, -⟩ := slice_of_readItemAt hread
  calc
    item.nodes ≤ item.encode.length := item.nodes_le_length_encode
    _ = ((data.drop offset).take (next - offset)).length := by rw [hslice]
    _ ≤ next - offset := List.length_take_le _ _

/-! ## The items of a list -/

/-- A list is read from behind the header of its payload's length, its items from there on. -/
theorem reads_list_iff_header {data : Bytes} {items : List Item} {size : Nat} :
    Reads data (.list items) size ↔
      ∃ length < lengthLimit, header 0xc0 0xf7 length <+: data ∧
        size = (header 0xc0 0xf7 length).length + length ∧ size ≤ data.length ∧
        readItems (data.drop (header 0xc0 0xf7 length).length) length = .ok items := by
  rw [reads_list_iff]
  constructor
  · rintro ⟨code, rest, headerSize, length, rfl, hcode, hheader, hfits, hitems, rfl⟩
    obtain ⟨hlength, -, hbytes⟩ := (readHeader_eq_ok_iff_header (by decide) (by decide) hcode
      (Nat.le_of_lt_succ code.toNat_lt)).mp hheader
    have hsize : (header 0xc0 0xf7 length).length = headerSize + 1 := by
      rw [hbytes, List.length_cons, List.length_take]
      omega
    refine ⟨length, hlength, ?_, by omega, ?_, ?_⟩
    · rw [hbytes]
      exact ⟨rest.drop headerSize, by rw [List.cons_append, List.take_append_drop]⟩
    · rw [List.length_cons]
      omega
    · rw [hsize, List.drop_succ_cons]
      exact hitems
  · rintro ⟨length, hlength, ⟨behind, rfl⟩, rfl, hfits, hitems⟩
    obtain ⟨code, sizeBytes, hbytes, hcode, hcode'⟩ :=
      exists_header_eq_cons (show 0xc0 + shortLimit = 0xf7 by decide) (by decide) hlength
    rw [List.length_append] at hfits
    rw [List.drop_left] at hitems
    have hheader : readHeader 0xc0 0xf7 code (sizeBytes ++ behind) =
        .ok (sizeBytes.length, length) :=
      (readHeader_eq_ok_iff_header (by decide) (by decide) hcode hcode').mpr
        ⟨hlength, by rw [List.length_append]; omega, by rw [hbytes, List.take_left]⟩
    refine ⟨code, sizeBytes ++ behind, sizeBytes.length, length, by rw [hbytes, List.cons_append],
      hcode, hheader, ?_, by rw [List.drop_left, hitems], ?_⟩
    · rw [List.length_append]
      omega
    · rw [hbytes, List.length_cons]
      omega

/-- The items are read one behind the other: the first from `start` on, each other one from where
the one before it ends, and the last one ends at `stop`. -/
inductive Tiles (data : Bytes) : Nat → Nat → List Item → Prop
  | nil {stop : Nat} : Tiles data stop stop []
  | cons {start middle stop : Nat} {item : Item} {items : List Item}
      (hitem : readItemAt data start = .ok (item, middle)) (hrest : Tiles data middle stop items) :
      Tiles data start stop (item :: items)

theorem Tiles.le {data : Bytes} {start stop : Nat} {items : List Item}
    (htiles : Tiles data start stop items) : start ≤ stop := by
  induction htiles with
  | nil => exact Nat.le_refl _
  | cons hitem hrest ih => exact Nat.le_trans (Nat.le_of_lt (readItemAt_bounds hitem).1) ih

theorem tiles_nil_iff {data : Bytes} {start stop : Nat} :
    Tiles data start stop [] ↔ start = stop := by
  constructor
  · intro htiles
    cases htiles
    rfl
  · rintro rfl
    exact .nil

theorem tiles_cons_iff {data : Bytes} {start stop : Nat} {item : Item} {items : List Item} :
    Tiles data start stop (item :: items) ↔
      ∃ middle, readItemAt data start = .ok (item, middle) ∧ Tiles data middle stop items := by
  constructor
  · intro htiles
    cases htiles with
    | cons hitem hrest => exact ⟨_, hitem, hrest⟩
  · rintro ⟨middle, hitem, hrest⟩
    exact .cons hitem hrest

/-- The loop over the items succeeds exactly when they tile what it is to read. -/
theorem readItems_eq_ok_iff_tiles {data : Bytes} {start length : Nat} {items : List Item} :
    readItems (data.drop start) length = .ok items ↔ Tiles data start (start + length) items := by
  induction items generalizing start length with
  | nil =>
      rw [readItems_nil_iff, tiles_nil_iff]
      omega
  | cons item items ih =>
      rw [readItems_cons_iff, tiles_cons_iff]
      constructor
      · rintro ⟨size, hreads, hsize, hrest⟩
        rw [List.drop_drop, ih,
          show start + size + (length - size) = start + length by omega] at hrest
        exact ⟨start + size, readItemAt_eq_ok_iff.mpr ⟨size, hreads, rfl⟩, hrest⟩
      · rintro ⟨middle, hitem, hrest⟩
        obtain ⟨size, hreads, rfl⟩ := readItemAt_eq_ok_iff.mp hitem
        have hle := hrest.le
        refine ⟨size, hreads, by omega, ?_⟩
        rw [List.drop_drop, ih, show start + size + (length - size) = start + length by omega]
        exact hrest

/-- A list is read exactly where its header stands and items tile the payload that it declares. -/
theorem readItemAt_list_iff {data : Bytes} {offset next : Nat} {items : List Item} :
    readItemAt data offset = .ok (.list items, next) ↔
      ∃ length < lengthLimit, header 0xc0 0xf7 length <+: data.drop offset ∧
        next = offset + (header 0xc0 0xf7 length).length + length ∧ next ≤ data.length ∧
        Tiles data (offset + (header 0xc0 0xf7 length).length) next items := by
  rw [readItemAt_eq_ok_iff]
  constructor
  · rintro ⟨size, hreads, rfl⟩
    obtain ⟨hpos, -⟩ := hreads.bounds
    obtain ⟨length, hlength, hheader, rfl, hfits, hitems⟩ := reads_list_iff_header.mp hreads
    rw [List.length_drop] at hfits
    rw [List.drop_drop, readItems_eq_ok_iff_tiles, Nat.add_assoc] at hitems
    exact ⟨length, hlength, hheader, (Nat.add_assoc ..).symm, by omega, hitems⟩
  · rintro ⟨length, hlength, hheader, rfl, hfits, htiles⟩
    refine ⟨_, reads_list_iff_header.mpr ⟨length, hlength, hheader, rfl, ?_, ?_⟩,
      Nat.add_assoc ..⟩
    · rw [List.length_drop]
      omega
    · rw [List.drop_drop]
      exact readItems_eq_ok_iff_tiles.mpr htiles

/-! ## Progress -/

/-- At every offset a reading ends, having begun at most one item more than bytes are left, and
looks at no place but theirs.  It finds a flaw, or an item and the next offset, which is further on
and within the data, with at most as many nodes as bytes between the two.  The items of a list tile
the payload that its header declares. -/
theorem reading_advances (data : Bytes) (offset : Nat) :
    (∀ look, AgreesFrom look data offset →
      (∃ begun, ItemRun look data.length offset begun (readItemAt data offset)) ∧
      ∀ begun outcome, ItemRun look data.length offset begun outcome →
        outcome = readItemAt data offset ∧ begun ≤ data.length - offset + 1) ∧
    ((∃ flaw, readItemAt data offset = .error flaw) ∨
      ∃ item next, readItemAt data offset = .ok (item, next) ∧
        offset < next ∧ next ≤ data.length ∧ item.nodes ≤ next - offset ∧
        decode ((data.drop offset).take (next - offset)) = .ok item) ∧
    (∀ items next, readItemAt data offset = .ok (.list items, next) ↔
      ∃ length < 2 ^ 64, header 0xc0 0xf7 length <+: data.drop offset ∧
        next = offset + (header 0xc0 0xf7 length).length + length ∧ next ≤ data.length ∧
        Tiles data (offset + (header 0xc0 0xf7 length).length) next items) ∧
    (∀ item, decode data = .ok item → item.nodes ≤ data.length) := by
  refine ⟨?_, ?_, fun items next => readItemAt_list_iff, ?_⟩
  · intro look hagree
    refine ⟨itemRun_readItemAt hagree offset (Nat.le_refl _), ?_⟩
    intro begun outcome hrun
    exact ⟨hrun.outcome_eq hagree (Nat.le_refl _), hrun.spent.le⟩
  · cases hread : readItemAt data offset with
    | error flaw => exact Or.inl ⟨flaw, rfl⟩
    | ok read =>
        obtain ⟨item, next⟩ := read
        obtain ⟨hnext, hbound⟩ := readItemAt_bounds hread
        exact Or.inr ⟨item, next, rfl, hnext, hbound, nodes_le_of_readItemAt hread,
          (slice_of_readItemAt hread).2⟩
  · intro item hdecode
    obtain ⟨-, rfl⟩ := decode_eq_ok_iff_encode.mp hdecode
    exact item.nodes_le_length_encode

/-- A byte, the list of `5` and `0x80`, and the start of another list. -/
def listAmidOthers : Bytes :=
  [0x07, 0xc3, 0x05, 0x81, 0x80, 0xff]

/-- A look finds nothing in front of the list, nor behind the data. -/
theorem reading_advances_amidOthers :
    AgreesFrom (fun place => if place = 0 then none else listAmidOthers[place]?)
        listAmidOthers 1 ∧
      readItemAt listAmidOthers 1 = .ok (.list [.bytes [0x05], .bytes [0x80]], 5) ∧
      (∃ begun ≤ 6, ItemRun (fun place => if place = 0 then none else listAmidOthers[place]?) 6 1
        begun (.ok (.list [.bytes [0x05], .bytes [0x80]], 5))) ∧
      Tiles listAmidOthers 2 5 [.bytes [0x05], .bytes [0x80]] := by
  have hagree : AgreesFrom (fun place => if place = 0 then none else listAmidOthers[place]?)
      listAmidOthers 1 := by
    intro place hfirst _
    exact if_neg (by omega)
  have hlength : (Item.list [.bytes [0x05], .bytes [0x80]]).encode.length < lengthLimit := by
    decide
  have hread : readItemAt listAmidOthers 1 =
      .ok (.list [.bytes [0x05], .bytes [0x80]], 5) :=
    readItemAt_append_encode hlength [0x07] [0xff]
  obtain ⟨hruns, -, hlists, -⟩ := reading_advances listAmidOthers 1
  obtain ⟨⟨begun, hrun⟩, hall⟩ := hruns _ hagree
  obtain ⟨-, hbegun⟩ := hall begun _ hrun
  rw [hread] at hrun
  obtain ⟨length, -, -, hnext, -, htiles⟩ := (hlists _ _).mp hread
  have hshort : length ≤ shortLimit := show length ≤ 55 by omega
  have hheader : (header 0xc0 0xf7 length).length = 1 := by
    rw [header, if_pos hshort, List.length_singleton]
  rw [hheader] at htiles
  exact ⟨hagree, hread, ⟨begun, hbegun, hrun⟩, htiles⟩

end ShardLedger.Rlp
