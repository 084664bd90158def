import ShardLedger.Proofs.Transaction.Encoding

/-!
# Replacing an entry of a transfer

Replacing the entry at one place leaves every other place and the outputs alone, and
replacements at different places can be made in either order.  If the new entry spends
the same out point, the signed message stays as it is.  A script is replaced only while it
is blank.
-/

namespace ShardLedger

theorem itemAt?_eq_some_iff {α : Type} {xs : List α} {index : Int} {x : α} :
    itemAt? xs index = some x ↔ ∃ i : Nat, index = i ∧ xs[i]? = some x := by
  cases index with
  | ofNat i =>
      constructor
      · intro hitem
        exact ⟨i, rfl, hitem⟩
      · rintro ⟨j, hj, hitem⟩
        rw [Int.ofNat.inj hj]
        exact hitem
  | negSucc i =>
      constructor
      · intro hitem
        cases hitem
      · rintro ⟨j, hj, -⟩
        cases hj

namespace Entry

variable {entry : Entry} {role : Script.Role}

theorem setScript_of_blank (hblank : entry.script role = []) (script : Bytes) :
    entry.setScript role script = .ok (entry.assignScript role script) := by
  cases role with
  | lock => exact if_neg (not_not.mpr hblank)
  | unlock => exact if_neg (not_not.mpr hblank)

theorem setScript_of_set (hset : entry.script role ≠ []) (script : Bytes) :
    entry.setScript role script = refuse (.scriptAlreadySet role) := by
  cases role with
  | lock => exact if_pos hset
  | unlock => exact if_pos hset

end Entry

namespace Transfer

/-- Replace the entry at a place of a list. -/
def setEntry (transfer : Transfer) (list : EntryList) (i : Nat) (entry : Entry) : Transfer :=
  transfer.setEntries list ((transfer.entries list).set i entry)

variable {transfer : Transfer} {list other : EntryList} {i j : Nat} {entry entry' : Entry}

@[simp]
theorem entries_setEntries (transfer : Transfer) (list : EntryList) (entries : List Entry) :
    (transfer.setEntries list entries).entries list = entries := by
  cases list with
  | inputs => rfl
  | burns => rfl

theorem entries_setEntries_of_ne (hne : list ≠ other) (transfer : Transfer)
    (entries : List Entry) :
    (transfer.setEntries list entries).entries other = transfer.entries other := by
  cases list with
  | inputs =>
      cases other with
      | inputs => exact absurd rfl hne
      | burns => rfl
  | burns =>
      cases other with
      | inputs => rfl
      | burns => exact absurd rfl hne

theorem setEntries_setEntries (transfer : Transfer) (list : EntryList)
    (entries entries' : List Entry) :
    (transfer.setEntries list entries).setEntries list entries' =
      transfer.setEntries list entries' := by
  cases list with
  | inputs => rfl
  | burns => rfl

theorem setEntries_comm (hne : list ≠ other) (transfer : Transfer)
    (entries entries' : List Entry) :
    (transfer.setEntries list entries).setEntries other entries' =
      (transfer.setEntries other entries').setEntries list entries := by
  cases list with
  | inputs =>
      cases other with
      | inputs => exact absurd rfl hne
      | burns => rfl
  | burns =>
      cases other with
      | inputs => rfl
      | burns => exact absurd rfl hne

/-! ## One place -/

@[simp]
theorem entries_setEntry (transfer : Transfer) (list : EntryList) (i : Nat) (entry : Entry) :
    (transfer.setEntry list i entry).entries list = (transfer.entries list).set i entry :=
  entries_setEntries transfer list _

theorem getElem?_setEntry (hentry : (transfer.entries list)[i]? = some entry) (entry' : Entry) :
    ((transfer.setEntry list i entry').entries list)[i]? = some entry' := by
  obtain ⟨hi, -⟩ := List.getElem?_eq_some_iff.mp hentry
  rw [entries_setEntry, List.getElem?_set_self hi]

theorem setEntry_setEntry (transfer : Transfer) (list : EntryList) (i : Nat)
    (entry entry' : Entry) :
    (transfer.setEntry list i entry).setEntry list i entry' = transfer.setEntry list i entry' := by
  rw [setEntry, entries_setEntry, List.set_set, setEntry, setEntries_setEntries, setEntry]

theorem length_entries_setEntry (transfer : Transfer) (list other : EntryList) (i : Nat)
    (entry : Entry) :
    ((transfer.setEntry list i entry).entries other).length = (transfer.entries other).length := by
  by_cases hlist : list = other
  · rw [← hlist, entries_setEntry, List.length_set]
  · rw [setEntry, entries_setEntries_of_ne hlist]

theorem hashWithoutScript_setEntry (hentry : (transfer.entries list)[i]? = some entry)
    (hprevOut : entry'.prevOut = entry.prevOut) :
    (transfer.setEntry list i entry').hashWithoutScript = transfer.hashWithoutScript := by
  have hsame : entry'.withoutScript = entry.withoutScript := by
    rw [Entry.withoutScript, hprevOut, Entry.withoutScript]
  rw [hashWithoutScript, setEntry,
    withoutScript_setEntries (map_set_eq_self hentry hsame), hashWithoutScript]

theorem changeEntry?_eq_setEntry (hentry : (transfer.entries list)[i]? = some entry)
    (change : Entry → Except Fault Entry) :
    transfer.changeEntry? list i change = some ((change entry).map (transfer.setEntry list i)) := by
  have hplace : ¬((i : Int) < 0) := by omega
  have hitem : itemAt? (transfer.entries list) (i : Int) = some entry := hentry
  unfold changeEntry?
  simp only [if_neg hplace, hitem, Option.bind_eq_bind, Option.bind_some, Int.toNat_natCast,
    Option.pure_def]
  rfl

theorem changeEntry?_cases (transfer : Transfer) (list : EntryList) (index : Int)
    (change : Entry → Except Fault Entry) :
    transfer.changeEntry? list index change = none ∨
      ∃ i entry, (transfer.entries list)[i]? = some entry ∧
        transfer.changeEntry? list index change =
          some ((change entry).map (transfer.setEntry list i)) := by
  unfold changeEntry?
  generalize hplace :
    (if index < 0 then index + ((transfer.entries list).length : Int) else index) = place
  simp only [hplace]
  cases hitem : itemAt? (transfer.entries list) place with
  | none => exact Or.inl rfl
  | some entry =>
      obtain ⟨i, rfl, hentry⟩ := itemAt?_eq_some_iff.mp hitem
      exact Or.inr ⟨i, entry, hentry, rfl⟩

/-! ## Two places -/

theorem getElem?_setEntry_of_ne (hne : ¬(list = other ∧ i = j)) (transfer : Transfer)
    (entry : Entry) :
    ((transfer.setEntry list i entry).entries other)[j]? = (transfer.entries other)[j]? := by
  by_cases hlist : list = other
  · have hij : i ≠ j := fun hij => hne ⟨hlist, hij⟩
    rw [← hlist, entries_setEntry, List.getElem?_set_ne hij]
  · rw [setEntry, entries_setEntries_of_ne hlist]

theorem setEntry_comm (hne : ¬(list = other ∧ i = j)) (transfer : Transfer)
    (entry entry' : Entry) :
    (transfer.setEntry list i entry).setEntry other j entry' =
      (transfer.setEntry other j entry').setEntry list i entry := by
  by_cases hlist : list = other
  · have hij : i ≠ j := fun hij => hne ⟨hlist, hij⟩
    subst hlist
    simp only [setEntry, entries_setEntries, setEntries_setEntries]
    rw [List.set_comm _ _ hij]
  · have hentries := entries_setEntries_of_ne hlist transfer ((transfer.entries list).set i entry)
    have hentries' := entries_setEntries_of_ne (Ne.symm hlist) transfer
      ((transfer.entries other).set j entry')
    rw [setEntry, setEntry, setEntry, setEntry, hentries, hentries', setEntries_comm hlist]

end Transfer

end ShardLedger
