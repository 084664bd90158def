import ShardLedger.Proofs.Fault
import ShardLedger.Proofs.Rlp.SelfDelimiting

/-!
# Runs over looked-up bytes

A reading that knows nothing of the data but their length has to look up every byte that it
uses.  The rules below are its runs, place by place and item by item: a look that finds
nothing has no rule, and neither has a loop that does not come to its end.  Over looks that
agree with the data from the offset on, there is one run at each offset, and it ends as the
reading of the data does, so that no other place is ever looked at.
-/

namespace ShardLedger.Rlp

/-- Where the payload of an item at an offset starts and stops, from the first byte of its header
and the bytes behind it. -/
def payloadPlaces (length short long : Nat) (tooLong : Flaw) (code : UInt8) (offset : Nat)
    (behind : Bytes) : Except Flaw (Nat × Nat) :=
  readHeader short long code behind >>= fun (size, count) =>
    if offset + 1 + size + count ≤ length then
      .ok (offset + 1 + size, offset + 1 + size + count)
    else .error tooLong

/-! ## Runs -/

/-- Looks at the places from `start` on find these bytes. -/
def Shows (look : Nat → Option UInt8) (start : Nat) (bytes : Bytes) : Prop :=
  ∀ i < bytes.length, look (start + i) = bytes[i]?

/-- What the header at an offset says of its payload, by looks at the bytes of the length behind its
first byte, as far as the data go. -/
def HeaderRun (look : Nat → Option UInt8) (length short long : Nat) (tooLong : Flaw)
    (code : UInt8) (offset : Nat) (outcome : Except Flaw (Nat × Nat)) : Prop :=
  ∃ raw, raw.length = min (code.toNat - long) (length - (offset + 1)) ∧
    Shows look (offset + 1) raw ∧
    payloadPlaces length short long tooLong code offset raw = outcome

mutual

/-- A run that starts at an offset of data of this length, with the number of items that it begins
and what it ends with. -/
inductive ItemRun (look : Nat → Option UInt8) (length : Nat) :
    Nat → Nat → Except Flaw (Item × Nat) → Prop
  | missing {offset : Nat} (hend : length ≤ offset) :
      ItemRun look length offset 1 (.error .missingItem)
  | single {offset : Nat} {code : UInt8} (hstart : offset < length)
      (hcode : look offset = some code) (hlow : code < 0x80) :
      ItemRun look length offset 1 (.ok (.bytes [code], offset + 1))
  | badString {offset : Nat} {code : UInt8} {flaw : Flaw} (hstart : offset < length)
      (hcode : look offset = some code) (hhigh : ¬code < 0x80) (hstring : code < 0xc0)
      (hheader : HeaderRun look length 0x80 0xb7 .stringTooLong code offset (.error flaw)) :
      ItemRun look length offset 1 (.error flaw)
  | string {offset start stop : Nat} {code : UInt8} {payload : Bytes} (hstart : offset < length)
      (hcode : look offset = some code) (hhigh : ¬code < 0x80) (hstring : code < 0xc0)
      (hheader : HeaderRun look length 0x80 0xb7 .stringTooLong code offset (.ok (start, stop)))
      (hcount : payload.length = stop - start) (hpayload : Shows look start payload) :
      ItemRun look length offset 1 ((stringOf payload).map fun value => (.bytes value, stop))
  | badList {offset : Nat} {code : UInt8} {flaw : Flaw} (hstart : offset < length)
      (hcode : look offset = some code) (hlist : ¬code < 0xc0)
      (hheader : HeaderRun look length 0xc0 0xf7 .listTooLong code offset (.error flaw)) :
      ItemRun look length offset 1 (.error flaw)
  | list {offset start stop begun : Nat} {code : UInt8} {outcome : Except Flaw (List Item)}
      (hstart : offset < length) (hcode : look offset = some code) (hlist : ¬code < 0xc0)
      (hheader : HeaderRun look length 0xc0 0xf7 .listTooLong code offset (.ok (start, stop)))
      (hitems : LoopRun look length start stop begun outcome) :
      ItemRun look length offset (begun + 1) (outcome.map fun items => (.list items, stop))

/-- A run of the loop over the items of a list, from a cursor to the end of the list's payload. -/
inductive LoopRun (look : Nat → Option UInt8) (length : Nat) :
    Nat → Nat → Nat → Except Flaw (List Item) → Prop
  | done {stop : Nat} : LoopRun look length stop stop 0 (.ok [])
  -- The item in front of the cursor was longer than what was left of the list.
  | overrun {cursor stop : Nat} (hover : stop < cursor) :
      LoopRun look length cursor stop 0 (.error .itemOverrun)
  | flawed {cursor stop begun : Nat} {flaw : Flaw} (hcursor : cursor < stop)
      (hitem : ItemRun look length cursor begun (.error flaw)) :
      LoopRun look length cursor stop begun (.error flaw)
  | next {cursor middle stop begun later : Nat} {item : Item} {outcome : Except Flaw (List Item)}
      (hcursor : cursor < stop) (hitem : ItemRun look length cursor begun (.ok (item, middle)))
      (hrest : LoopRun look length middle stop later outcome) :
      LoopRun look length cursor stop (begun + later) (outcome.map fun items => item :: items)

end

/-! ## Payloads -/

section

variable {length short long offset : Nat} {tooLong : Flaw} {code : UInt8} {behind : Bytes}

/-- A header is no longer than its first byte says. -/
theorem payloadPlaces_take :
    payloadPlaces length short long tooLong code offset (behind.take (code.toNat - long)) =
      payloadPlaces length short long tooLong code offset behind := by
  simp only [payloadPlaces, readHeader, readLength, List.take_take, Nat.min_self]

theorem payloadPlaces_bounds {start stop : Nat}
    (hplaces : payloadPlaces length short long tooLong code offset behind = .ok (start, stop)) :
    offset < start ∧ start ≤ stop ∧ stop ≤ length := by
  obtain ⟨⟨size, count⟩, -, hfits⟩ := bind_eq_ok_iff.mp hplaces
  simp only at hfits
  split at hfits
  next hstop =>
    cases hfits
    omega
  next => cases hfits

end

/-! ## Runs are short -/

/-- At an offset no more items are begun than bytes are read, or than one more than bytes are left
where the run ends with a flaw. -/
def SpentOnItem (length offset begun : Nat) : Except Flaw (Item × Nat) → Prop
  | .ok (_, next) => offset + begun ≤ next ∧ next ≤ length
  | .error _ => begun ≤ length - offset + 1

/-- From a cursor no more items are begun than bytes are read, or than one more than bytes are left
where the run ends with a flaw. -/
def SpentOnLoop (length cursor stop begun : Nat) : Except Flaw (List Item) → Prop
  | .ok _ => cursor + begun ≤ stop
  | .error _ => begun ≤ length - cursor + 1

theorem SpentOnItem.le {length offset begun : Nat} {outcome : Except Flaw (Item × Nat)}
    (hspent : SpentOnItem length offset begun outcome) : begun ≤ length - offset + 1 := by
  cases outcome with
  | error flaw => exact hspent
  | ok read =>
      obtain ⟨hnext, hbound⟩ := hspent
      omega

section

variable {look : Nat → Option UInt8} {length : Nat}

theorem HeaderRun.bounds {short long offset start stop : Nat} {tooLong : Flaw} {code : UInt8}
    (hheader : HeaderRun look length short long tooLong code offset (.ok (start, stop))) :
    offset < start ∧ start ≤ stop ∧ stop ≤ length := by
  obtain ⟨raw, -, -, hplaces⟩ := hheader
  exact payloadPlaces_bounds hplaces

-- The rules are followed one by one; what an item takes is behind the cursor for the next one.
mutual

/-- Whatever the looks find, a run begins no more items than there are bytes for. -/
theorem ItemRun.spent : ∀ {offset begun : Nat} {outcome : Except Flaw (Item × Nat)},
    ItemRun look length offset begun outcome → SpentOnItem length offset begun outcome
  | _, _, _, .missing _ | _, _, _, .badString .. | _, _, _, .badList .. => by
      rw [SpentOnItem]
      omega
  | _, _, _, .single hstart _ _ => ⟨Nat.le_refl _, hstart⟩
  | _, _, _, @ItemRun.string _ _ _ _ _ _ payload _ _ _ _ hheader _ _ => by
      obtain ⟨hstart, hle, hstop⟩ := hheader.bounds
      cases stringOf payload with
      | error flaw =>
          rw [Except.map, SpentOnItem]
          omega
      | ok value => exact ⟨by omega, hstop⟩
  | _, _, _, @ItemRun.list _ _ _ _ _ _ _ outcome _ _ _ hheader hitems => by
      obtain ⟨hstart, hle, hstop⟩ := hheader.bounds
      have hspent := hitems.spent hstop
      cases outcome with
      | error flaw =>
          rw [SpentOnLoop] at hspent
          rw [Except.map, SpentOnItem]
          omega
      | ok items =>
          rw [SpentOnLoop] at hspent
          exact ⟨by omega, hstop⟩

theorem LoopRun.spent : ∀ {cursor stop begun : Nat} {outcome : Except Flaw (List Item)},
    LoopRun look length cursor stop begun outcome → stop ≤ length →
      SpentOnLoop length cursor stop begun outcome
  | _, _, _, _, .done, _ => Nat.le_refl _
  | _, _, _, _, .overrun _, _ => Nat.zero_le _
  | _, _, _, _, .flawed _ hitem, _ => hitem.spent
  | _, _, _, _, @LoopRun.next _ _ _ _ _ _ _ _ outcome _ hitem hrest, hstop => by
      obtain ⟨hmiddle, hbound⟩ := hitem.spent
      have hlater := hrest.spent hstop
      cases outcome with
      | error flaw =>
          rw [SpentOnLoop] at hlater
          rw [Except.map, SpentOnLoop]
          omega
      | ok items =>
          rw [SpentOnLoop] at hlater
          rw [Except.map, SpentOnLoop]
          omega

end

end

/-! ## Reading by offsets -/

/-- Reading the items from a cursor to the end of a list's payload. -/
def readItemsAt (data : Bytes) (cursor stop : Nat) : Except Flaw (List Item) :=
  if stop < cursor then .error .itemOverrun else readItems (data.drop cursor) (stop - cursor)

theorem readItemAt_of_end {data : Bytes} {offset : Nat} (hend : data.length ≤ offset) :
    readItemAt data offset = .error .missingItem := by
  rw [readItemAt, List.drop_eq_nil_of_le hend, readItem.eq_def]
  rfl

section

variable {data : Bytes} {offset : Nat} {code : UInt8} (hcode : data[offset]? = some code)
include hcode

theorem drop_eq_cons : data.drop offset = code :: data.drop (offset + 1) := by
  obtain ⟨hstart, rfl⟩ := List.getElem?_eq_some_iff.mp hcode
  exact List.drop_eq_getElem_cons hstart

theorem readItemAt_of_single (hlow : code < 0x80) :
    readItemAt data offset = .ok (.bytes [code], offset + 1) := by
  rw [readItemAt, drop_eq_cons hcode, readItem.eq_def]
  simp only [if_pos hlow, map_ok]

theorem readItemAt_of_string (hhigh : ¬code < 0x80) (hstring : code < 0xc0) :
    readItemAt data offset =
      payloadPlaces data.length 0x80 0xb7 .stringTooLong code offset (data.drop (offset + 1)) >>=
        fun (start, stop) =>
          (stringOf ((data.drop start).take (stop - start))).map fun value =>
            (.bytes value, stop) := by
  obtain ⟨hstart, -⟩ := List.getElem?_eq_some_iff.mp hcode
  rw [readItemAt, drop_eq_cons hcode, readItem.eq_def, payloadPlaces]
  simp only [if_neg hhigh, if_pos hstring]
  cases readHeader 0x80 0xb7 code (data.drop (offset + 1)) with
  | error flaw => rfl
  | ok read =>
      obtain ⟨size, count⟩ := read
      simp only [ok_bind, List.drop_drop, List.length_drop]
      by_cases hstop : offset + 1 + size + count ≤ data.length
      · rw [if_pos hstop, dif_pos (by omega)]
        simp only [ok_bind, Nat.add_sub_cancel_left]
        cases stringOf ((data.drop (offset + 1 + size)).take count) with
        | error flaw => rfl
        | ok value => simp only [map_ok, Nat.add_assoc]
      · rw [if_neg hstop, dif_neg (by omega)]
        rfl

theorem readItemAt_of_list (hlist : ¬code < 0xc0) :
    readItemAt data offset =
      payloadPlaces data.length 0xc0 0xf7 .listTooLong code offset (data.drop (offset + 1)) >>=
        fun (start, stop) =>
          (readItemsAt data start stop).map fun items => (.list items, stop) := by
  obtain ⟨hstart, -⟩ := List.getElem?_eq_some_iff.mp hcode
  have hhigh : ¬code < 0x80 := fun hlow => hlist (UInt8.lt_trans hlow (by decide))
  rw [readItemAt, drop_eq_cons hcode, readItem.eq_def, payloadPlaces]
  simp only [if_neg hhigh, if_neg hlist]
  cases readHeader 0xc0 0xf7 code (data.drop (offset + 1)) with
  | error flaw => rfl
  | ok read =>
      obtain ⟨size, count⟩ := read
      simp only [ok_bind, List.drop_drop, List.length_drop]
      by_cases hstop : offset + 1 + size + count ≤ data.length
      · rw [if_pos hstop, dif_pos (by omega)]
        simp only [ok_bind, readItemsAt, Nat.add_sub_cancel_left,
          if_neg (Nat.not_lt.mpr (Nat.le_add_right _ _))]
        cases readItems (data.drop (offset + 1 + size)) count with
        | error flaw => rfl
        | ok items => simp only [map_ok, Nat.add_assoc]
      · rw [if_neg hstop, dif_neg (by omega)]
        rfl

end

/-- An item that is read ends behind its offset, within the data. -/
theorem readItemAt_bounds {data : Bytes} {offset next : Nat} {item : Item}
    (hread : readItemAt data offset = .ok (item, next)) : offset < next ∧ next ≤ data.length := by
  obtain ⟨size, hreads, rfl⟩ := readItemAt_eq_ok_iff.mp hread
  obtain ⟨hpos, hsize⟩ := hreads.bounds
  rw [List.length_drop] at hsize
  omega

theorem readItemsAt_of_end (data : Bytes) (stop : Nat) : readItemsAt data stop stop = .ok [] := by
  rw [readItemsAt, if_neg (Nat.lt_irrefl _), Nat.sub_self, readItems_nil_iff]

theorem readItemsAt_of_over {data : Bytes} {cursor stop : Nat} (hover : stop < cursor) :
    readItemsAt data cursor stop = .error .itemOverrun := by
  rw [readItemsAt, if_pos hover]

/-- A turn of the loop over the items reads one item and goes on where it ends. -/
theorem readItemsAt_of_lt {data : Bytes} {cursor stop : Nat} (hcursor : cursor < stop) :
    readItemsAt data cursor stop =
      readItemAt data cursor >>= fun (item, middle) =>
        (readItemsAt data middle stop).map fun items => item :: items := by
  rw [readItemsAt, if_neg (by omega), readItems.eq_def, if_neg (by omega), readItemAt]
  cases readItem (data.drop cursor) with
  | error flaw => rfl
  | ok read =>
      obtain ⟨⟨item, size⟩, -⟩ := read
      simp only [map_ok, ok_bind, readItemsAt, List.drop_drop]
      by_cases hover : stop < cursor + size
      · rw [if_pos hover, if_pos (by omega)]
        rfl
      · rw [if_neg hover, if_neg (by omega), Nat.sub_sub]
        cases readItems (data.drop (cursor + size)) (stop - (cursor + size)) <;> rfl

/-! ## Looks that agree with the data -/

/-- Looks find the bytes of the data from an offset on; elsewhere they may find anything, or
nothing. -/
def AgreesFrom (look : Nat → Option UInt8) (data : Bytes) (first : Nat) : Prop :=
  ∀ place, first ≤ place → place < data.length → look place = data[place]?

section

variable {look : Nat → Option UInt8} {data : Bytes} {first : Nat}

theorem shows_iff (hagree : AgreesFrom look data first) {start : Nat} {bytes : Bytes}
    (hfirst : first ≤ start) (hfits : start + bytes.length ≤ data.length) :
    Shows look start bytes ↔ bytes = (data.drop start).take bytes.length := by
  have hlooks : ∀ i < bytes.length,
      look (start + i) = ((data.drop start).take bytes.length)[i]? := by
    intro i hi
    rw [hagree _ (by omega) (by omega), List.getElem?_take_of_lt hi, List.getElem?_drop]
  constructor
  · intro hshows
    apply List.ext_getElem?
    intro i
    by_cases hi : i < bytes.length
    · rw [← hshows i hi, hlooks i hi]
    · rw [List.getElem?_eq_none (by omega), List.getElem?_eq_none (by simp; omega)]
  · intro hbytes i hi
    rw [hlooks i hi, ← hbytes]

/-- Looks that go no further than the data tell the same of a payload as the data. -/
theorem headerRun_iff (hagree : AgreesFrom look data first) {short long offset : Nat}
    {tooLong : Flaw} {code : UInt8} {outcome : Except Flaw (Nat × Nat)} (hfirst : first ≤ offset)
    (hstart : offset < data.length) :
    HeaderRun look data.length short long tooLong code offset outcome ↔
      payloadPlaces data.length short long tooLong code offset (data.drop (offset + 1)) =
        outcome := by
  let size := code.toNat - long
  have hsize : ∀ raw : Bytes, raw.length = min size (data.length - (offset + 1)) →
      (data.drop (offset + 1)).take raw.length = (data.drop (offset + 1)).take size := by
    intro raw hlength
    rw [List.take_eq_take_iff, List.length_drop, hlength]
    omega
  constructor
  · rintro ⟨raw, hlength, hraw, rfl⟩
    have hbytes := (shows_iff hagree (by omega) (by omega)).mp hraw
    rw [hbytes, hsize raw hlength, payloadPlaces_take]
  · rintro rfl
    have hlength : ((data.drop (offset + 1)).take size).length =
        min size (data.length - (offset + 1)) := by
      rw [List.length_take, List.length_drop]
    refine ⟨_, hlength, ?_, payloadPlaces_take⟩
    exact (shows_iff hagree (by omega) (by omega)).mpr (hsize _ hlength).symm

/-! ## One run at each offset -/

/-- A reading that meets a byte string has a run. -/
theorem itemRun_of_string (hagree : AgreesFrom look data first) {offset : Nat} {code : UInt8}
    (hfirst : first ≤ offset) (hcode : data[offset]? = some code) (hhigh : ¬code < 0x80)
    (hstring : code < 0xc0) : ItemRun look data.length offset 1 (readItemAt data offset) := by
  obtain ⟨hstart, -⟩ := List.getElem?_eq_some_iff.mp hcode
  have hlook : look offset = some code := by rw [hagree _ hfirst hstart, hcode]
  have hheader := (headerRun_iff hagree hfirst hstart).mpr
    (Eq.refl (payloadPlaces data.length 0x80 0xb7 .stringTooLong code offset _))
  rw [readItemAt_of_string hcode hhigh hstring]
  cases hplaces : payloadPlaces data.length 0x80 0xb7 .stringTooLong code offset
      (data.drop (offset + 1)) with
  | error flaw =>
      rw [hplaces] at hheader
      exact .badString hstart hlook hhigh hstring hheader
  | ok places =>
      obtain ⟨start, stop⟩ := places
      obtain ⟨hbehind, hle, hstop⟩ := payloadPlaces_bounds hplaces
      rw [hplaces] at hheader
      have hcount : ((data.drop start).take (stop - start)).length = stop - start := by
        rw [List.length_take, List.length_drop]
        omega
      exact .string hstart hlook hhigh hstring hheader hcount
        ((shows_iff hagree (by omega) (by omega)).mpr (by rw [hcount]))

-- The measure is what is left of the data; a loop stands above the item at its cursor.
mutual

/-- Every reading has a run: it ends, and looks at no place but those of the data from its start
on. -/
theorem itemRun_readItemAt (hagree : AgreesFrom look data first) (offset : Nat)
    (hfirst : first ≤ offset) :
    ∃ begun, ItemRun look data.length offset begun (readItemAt data offset) := by
  by_cases hend : data.length ≤ offset
  · rw [readItemAt_of_end hend]
    exact ⟨1, .missing hend⟩
  · have hstart : offset < data.length := Nat.lt_of_not_le hend
    obtain ⟨code, hcode⟩ : ∃ code, data[offset]? = some code :=
      ⟨_, List.getElem?_eq_getElem hstart⟩
    have hlook : look offset = some code := by rw [hagree _ hfirst hstart, hcode]
    by_cases hlow : code < 0x80
    · rw [readItemAt_of_single hcode hlow]
      exact ⟨1, .single hstart hlook hlow⟩
    · by_cases hstring : code < 0xc0
      · exact ⟨1, itemRun_of_string hagree hfirst hcode hlow hstring⟩
      · rw [readItemAt_of_list hcode hstring]
        have hheader := (headerRun_iff hagree hfirst hstart).mpr
          (Eq.refl (payloadPlaces data.length 0xc0 0xf7 .listTooLong code offset _))
        cases hplaces : payloadPlaces data.length 0xc0 0xf7 .listTooLong code offset
            (data.drop (offset + 1)) with
        | error flaw =>
            rw [hplaces] at hheader
            exact ⟨1, .badList hstart hlook hstring hheader⟩
        | ok places =>
            obtain ⟨start, stop⟩ := places
            obtain ⟨hbehind, hle, hstop⟩ := payloadPlaces_bounds hplaces
            rw [hplaces] at hheader
            obtain ⟨begun, hitems⟩ := loopRun_readItemsAt hagree start stop (by omega) hstop
            exact ⟨begun + 1, .list hstart hlook hstring hheader hitems⟩
termination_by 2 * (data.length - offset)

theorem loopRun_readItemsAt (hagree : AgreesFrom look data first) (cursor stop : Nat)
    (hfirst : first ≤ cursor) (hstop : stop ≤ data.length) :
    ∃ begun, LoopRun look data.length cursor stop begun (readItemsAt data cursor stop) := by
  rcases Nat.lt_trichotomy cursor stop with hcursor | rfl | hover
  · rw [readItemsAt_of_lt hcursor]
    obtain ⟨begun, hitem⟩ := itemRun_readItemAt hagree cursor hfirst
    cases hread : readItemAt data cursor with
    | error flaw =>
        rw [hread] at hitem
        exact ⟨begun, .flawed hcursor hitem⟩
    | ok read =>
        obtain ⟨item, middle⟩ := read
        rw [hread] at hitem
        obtain ⟨hmiddle, hbound⟩ := readItemAt_bounds hread
        obtain ⟨later, hrest⟩ := loopRun_readItemsAt hagree middle stop (by omega) hstop
        exact ⟨begun + later, .next hcursor hitem hrest⟩
  · rw [readItemsAt_of_end]
    exact ⟨0, .done⟩
  · rw [readItemsAt_of_over hover]
    exact ⟨0, .overrun hover⟩
termination_by 2 * (data.length - cursor) + 1

end

mutual

/-- No run ends otherwise than the reading. -/
theorem ItemRun.outcome_eq (hagree : AgreesFrom look data first) :
    ∀ {offset begun : Nat} {outcome : Except Flaw (Item × Nat)}, first ≤ offset →
      ItemRun look data.length offset begun outcome → outcome = readItemAt data offset
  | _, _, _, _, .missing hend => (readItemAt_of_end hend).symm
  | _, _, _, hfirst, .single hstart hcode hlow => by
      rw [hagree _ hfirst hstart] at hcode
      exact (readItemAt_of_single hcode hlow).symm
  | _, _, _, hfirst, .badString hstart hcode hhigh hstring hheader => by
      rw [hagree _ hfirst hstart] at hcode
      rw [readItemAt_of_string hcode hhigh hstring,
        (headerRun_iff hagree hfirst hstart).mp hheader, error_bind]
  | _, _, _, hfirst, .string hstart hcode hhigh hstring hheader hcount hpayload => by
      rw [hagree _ hfirst hstart] at hcode
      have hplaces := (headerRun_iff hagree hfirst hstart).mp hheader
      obtain ⟨hbehind, hle, hstop⟩ := payloadPlaces_bounds hplaces
      have hbytes := (shows_iff hagree (by omega) (by omega)).mp hpayload
      rw [hcount] at hbytes
      rw [readItemAt_of_string hcode hhigh hstring, hplaces, ok_bind]
      simp only [← hbytes]
  | _, _, _, hfirst, .badList hstart hcode hlist hheader => by
      rw [hagree _ hfirst hstart] at hcode
      rw [readItemAt_of_list hcode hlist,
        (headerRun_iff hagree hfirst hstart).mp hheader, error_bind]
  | _, _, _, hfirst, .list hstart hcode hlist hheader hitems => by
      rw [hagree _ hfirst hstart] at hcode
      have hplaces := (headerRun_iff hagree hfirst hstart).mp hheader
      obtain ⟨hbehind, -, -⟩ := payloadPlaces_bounds hplaces
      rw [readItemAt_of_list hcode hlist, hplaces, ok_bind,
        LoopRun.outcome_eq hagree (by omega) hitems]

theorem LoopRun.outcome_eq (hagree : AgreesFrom look data first) :
    ∀ {cursor stop begun : Nat} {outcome : Except Flaw (List Item)}, first ≤ cursor →
      LoopRun look data.length cursor stop begun outcome → outcome = readItemsAt data cursor stop
  | _, _, _, _, _, .done => (readItemsAt_of_end data _).symm
  | _, _, _, _, _, .overrun hover => (readItemsAt_of_over hover).symm
  | _, _, _, _, hfirst, .flawed hcursor hitem => by
      rw [readItemsAt_of_lt hcursor, ← ItemRun.outcome_eq hagree hfirst hitem, error_bind]
  | _, _, _, _, hfirst, .next hcursor hitem hrest => by
      have hread := (ItemRun.outcome_eq hagree hfirst hitem).symm
      obtain ⟨hmiddle, -⟩ := readItemAt_bounds hread
      rw [readItemsAt_of_lt hcursor, hread, ok_bind, LoopRun.outcome_eq hagree (by omega) hrest]

end

end

end ShardLedger.Rlp
