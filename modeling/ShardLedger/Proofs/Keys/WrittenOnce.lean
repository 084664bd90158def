import ShardLedger.Proofs.Keys.Signing

/-!
# Scripts are written once

A transfer is worked on in place: entries and outputs are added, scripts are set directly
or by signing, and hashes, documents and authorizations are asked for in between, in any
order and with any number of failures.  Entries stay where they are and keep their out
points, a script that is not blank stays as it is, a failure changes nothing, and only
what is added changes the signed message.
-/

namespace ShardLedger

/-! ## Calls -/

/-- Something that is asked of a transfer. -/
inductive TransferCall where
  | addEntry (list : EntryList) (prevOut : OutPoint)
  | addOutput (output : Output)
  | setScript (list : EntryList) (index : Int) (role : Script.Role) (script : Bytes)
  | sign (service : KeyService) (request : SigningCall)
  | hash
  | hashWithoutScript
  | document
  | authorize (limits : Script.Limits) (list : EntryList) (index : Int)
  | verify (limits : Script.Limits)

/-- What a transfer answers. -/
inductive TransferAnswer where
  | done
  | entry (entry : Entry)
  | output (output : Output)
  | digest (digest : Digest)
  | document (document : Datum)
  | outcome (outcome : Script.Outcome)

namespace TransferCall

/-- Do what is asked, in place. -/
def perform : TransferCall → Signing TransferAnswer
  | addEntry list prevOut => do
    modify fun transfer => transfer.addEntry list prevOut
    return .entry { prevOut := prevOut }
  | addOutput output => do
    modify fun transfer => transfer.addOutput output
    return .output output
  | setScript list index role script => do
    Signing.setScript list index role script
    return .done
  | sign service request => do
    request.sign service
    return .done
  | hash => return .digest (← get).hash
  | hashWithoutScript => return .digest (← get).hashWithoutScript
  | document => return .document (← get).toDatum
  | authorize limits list index => do
    let transfer ← get
    return .outcome (← transfer.authorize limits list index)
  | verify limits => do
    let transfer ← get
    let _ ← transfer.verify limits
    return .done

/-- The transfer that a call leaves, whether it succeeds or fails. -/
def leave (call : TransferCall) (transfer : Transfer) : Transfer :=
  match call.perform.run transfer with
  | .ok _ after => after
  | .error _ after => after

/-- The transfer that a run of calls leaves; failures do not end it. -/
def leaveAll (calls : List TransferCall) (transfer : Transfer) : Transfer :=
  calls.foldl (fun transfer call => call.leave transfer) transfer

/-- Whether a call adds an entry or an output. -/
def adds : TransferCall → Bool
  | addEntry _ _ | addOutput _ => true
  | _ => false

end TransferCall

/-! ## Setting a script -/

namespace Entry

variable {entry : Entry} {role : Script.Role}

/-- An entry that comes from another one by setting blank scripts. -/
structure Fills (filled entry : Entry) : Prop where
  prevOut : filled.prevOut = entry.prevOut
  script : ∀ role, entry.script role ≠ [] → filled.script role = entry.script role

theorem Fills.refl (entry : Entry) : entry.Fills entry :=
  ⟨rfl, fun _ _ => rfl⟩

theorem Fills.trans {first second third : Entry} (h : third.Fills second)
    (h' : second.Fills first) : third.Fills first := by
  refine ⟨h.prevOut.trans h'.prevOut, ?_⟩
  intro role hset
  have hsecond := h'.script role hset
  rw [← hsecond] at hset
  exact (h.script role hset).trans hsecond

theorem fills_assignScript (hblank : entry.script role = []) (script : Bytes) :
    (entry.assignScript role script).Fills entry := by
  refine ⟨prevOut_assignScript role script entry, ?_⟩
  intro other hset
  -- Setting one script leaves the other one alone.
  cases role with
  | lock =>
      cases other with
      | lock => exact absurd hblank hset
      | unlock => rfl
  | unlock =>
      cases other with
      | lock => rfl
      | unlock => exact absurd hblank hset

end Entry

theorem Authorizer.Awaits.fills_filled {authorizer : Authorizer} {entry : Entry} {hash : Digest}
    (hawaits : authorizer.Awaits entry hash) (unlock : Bytes) :
    (authorizer.filled entry unlock).Fills entry := by
  refine ⟨rfl, ?_⟩
  intro role hset
  cases role with
  | lock => exact absurd hawaits.lock_blank hset
  | unlock => exact absurd hawaits.unlock_blank hset

theorem Signing.run_setScript_cases (list : EntryList) (index : Int) (role : Script.Role)
    (script : Bytes) (transfer : Transfer) :
    (∃ fault, (setScript list index role script).run transfer = .error fault transfer) ∨
      ∃ i entry, (transfer.entries list)[i]? = some entry ∧ entry.script role = [] ∧
        (setScript list index role script).run transfer =
          .ok () (transfer.setEntry list i (entry.assignScript role script)) := by
  rw [setScript, EStateM.run_bind, EStateM.run_get]
  rcases transfer.changeEntry?_cases list index (Entry.setScript role script) with
    hnone | ⟨i, entry, hentry, hchange⟩
  · left
    simp only [hnone]
    exact ⟨_, rfl⟩
  · by_cases hblank : entry.script role = []
    · right
      refine ⟨i, entry, hentry, hblank, ?_⟩
      simp only [hchange, Entry.setScript_of_blank hblank]
      rfl
    · left
      simp only [hchange, Entry.setScript_of_set hblank]
      exact ⟨_, rfl⟩

theorem Signing.run_setScript_of_set {transfer : Transfer} {list : EntryList} {i : Nat}
    {entry : Entry} (hentry : (transfer.entries list)[i]? = some entry) {role : Script.Role}
    (hset : entry.script role ≠ []) (script : Bytes) :
    (setScript list i role script).run transfer =
      .error (.malformed (.scriptAlreadySet role)) transfer := by
  have hchange := Transfer.changeEntry?_eq_setEntry hentry (Entry.setScript role script)
  rw [setScript, EStateM.run_bind, EStateM.run_get]
  simp only [hchange, Entry.setScript_of_set hset]
  rfl

/-! ## What one call changes -/

/-- What a call may leave of a transfer. -/
inductive TransferCall.Change (transfer : Transfer) : TransferCall → Transfer → Prop
  | none {call : TransferCall} : Change transfer call transfer
  | entryAdded (list : EntryList) (prevOut : OutPoint) :
      Change transfer (.addEntry list prevOut) (transfer.addEntry list prevOut)
  | outputAdded (output : Output) :
      Change transfer (.addOutput output) (transfer.addOutput output)
  | entryFilled {call : TransferCall} {list : EntryList} {i : Nat} {entry filled : Entry}
      (hentry : (transfer.entries list)[i]? = some entry) (hfills : filled.Fills entry) :
      Change transfer call (transfer.setEntry list i filled)

namespace TransferCall

/-- A call fails and changes nothing, or makes one of the changes that it may make. -/
theorem run_perform_cases (call : TransferCall) (transfer : Transfer) :
    (∃ fault, call.perform.run transfer = .error fault transfer) ∨
      ∃ answer after, call.perform.run transfer = .ok answer after ∧
        Change transfer call after := by
  cases call with
  | addEntry list prevOut => exact Or.inr ⟨_, _, rfl, .entryAdded list prevOut⟩
  | addOutput output => exact Or.inr ⟨_, _, rfl, .outputAdded output⟩
  | setScript list index role script =>
      rw [perform, EStateM.run_bind]
      rcases Signing.run_setScript_cases list index role script transfer with
        ⟨fault, hfault⟩ | ⟨i, entry, hentry, hblank, hrun⟩
      · rw [hfault]
        exact Or.inl ⟨fault, rfl⟩
      · rw [hrun]
        exact Or.inr ⟨_, _, rfl, .entryFilled hentry (Entry.fills_assignScript hblank script)⟩
  | sign service request =>
      rw [perform, EStateM.run_bind]
      rcases request.run_sign_cases service transfer with
        ⟨fault, hfault⟩ | ⟨i, entry, hash, unlock, -, hready, hrun⟩
      · rw [hfault]
        exact Or.inl ⟨fault, rfl⟩
      · rw [hrun]
        exact Or.inr ⟨_, _, rfl, .entryFilled hready.entry_at (hready.awaits.fills_filled unlock)⟩
  | hash => exact Or.inr ⟨_, _, rfl, .none⟩
  | hashWithoutScript => exact Or.inr ⟨_, _, rfl, .none⟩
  | document => exact Or.inr ⟨_, _, rfl, .none⟩
  | authorize limits list index =>
      simp only [perform, EStateM.run_bind, EStateM.run_get, Signing.run_lift]
      cases transfer.authorize limits list index with
      | error fault => exact Or.inl ⟨fault, rfl⟩
      | ok outcome => exact Or.inr ⟨_, _, rfl, .none⟩
  | verify limits =>
      simp only [perform, EStateM.run_bind, EStateM.run_get, Signing.run_lift]
      cases transfer.verify limits with
      | error fault => exact Or.inl ⟨fault, rfl⟩
      | ok _ => exact Or.inr ⟨_, _, rfl, .none⟩

theorem change_leave (call : TransferCall) (transfer : Transfer) :
    Change transfer call (call.leave transfer) := by
  rw [leave]
  rcases call.run_perform_cases transfer with ⟨fault, hrun⟩ | ⟨answer, after, hrun, hchange⟩
  · rw [hrun]
    exact .none
  · rw [hrun]
    exact hchange

end TransferCall

/-! ## What a run of calls keeps -/

/-- Every entry of a transfer is still in its place, filled in at most. -/
def Transfer.KeepsEntries (before after : Transfer) : Prop :=
  ∀ list (i : Nat) entry, (before.entries list)[i]? = some entry →
    ∃ filled, (after.entries list)[i]? = some filled ∧ filled.Fills entry

namespace Transfer

theorem KeepsEntries.refl (transfer : Transfer) : transfer.KeepsEntries transfer :=
  fun _ _ entry hentry => ⟨entry, hentry, .refl entry⟩

theorem KeepsEntries.trans {first second third : Transfer} (h : first.KeepsEntries second)
    (h' : second.KeepsEntries third) : first.KeepsEntries third := by
  intro list i entry hentry
  obtain ⟨middle, hmiddle, hfills⟩ := h list i entry hentry
  obtain ⟨filled, hfilled, hfills'⟩ := h' list i middle hmiddle
  exact ⟨filled, hfilled, hfills'.trans hfills⟩

theorem keepsEntries_addEntry (transfer : Transfer) (list : EntryList) (prevOut : OutPoint) :
    transfer.KeepsEntries (transfer.addEntry list prevOut) := by
  intro other i entry hentry
  refine ⟨entry, ?_, .refl entry⟩
  by_cases hlist : list = other
  · subst hlist
    obtain ⟨hi, -⟩ := List.getElem?_eq_some_iff.mp hentry
    rw [addEntry, entries_setEntries, List.getElem?_append_left hi, hentry]
  · rw [addEntry, entries_setEntries_of_ne hlist, hentry]

theorem keepsEntries_addOutput (transfer : Transfer) (output : Output) :
    transfer.KeepsEntries (transfer.addOutput output) := by
  intro list i entry hentry
  refine ⟨entry, ?_, .refl entry⟩
  cases list with
  | inputs => exact hentry
  | burns => exact hentry

theorem keepsEntries_setEntry {transfer : Transfer} {list : EntryList} {i : Nat}
    {entry filled : Entry} (hentry : (transfer.entries list)[i]? = some entry)
    (hfills : filled.Fills entry) : transfer.KeepsEntries (transfer.setEntry list i filled) := by
  intro other j entry' hentry'
  by_cases hsame : list = other ∧ i = j
  · obtain ⟨rfl, rfl⟩ := hsame
    rw [hentry] at hentry'
    cases hentry'
    exact ⟨filled, getElem?_setEntry hentry filled, hfills⟩
  · refine ⟨entry', ?_, .refl entry'⟩
    rw [getElem?_setEntry_of_ne hsame, hentry']

end Transfer

namespace TransferCall

theorem Change.keepsEntries {call : TransferCall} {transfer after : Transfer}
    (hchange : Change transfer call after) : transfer.KeepsEntries after := by
  cases hchange with
  | none => exact .refl transfer
  | entryAdded list prevOut => exact transfer.keepsEntries_addEntry list prevOut
  | outputAdded output => exact transfer.keepsEntries_addOutput output
  | entryFilled hentry hfills => exact Transfer.keepsEntries_setEntry hentry hfills

theorem Change.hashWithoutScript_eq {call : TransferCall} {transfer after : Transfer}
    (hchange : Change transfer call after) (hadds : call.adds = false) :
    after.hashWithoutScript = transfer.hashWithoutScript := by
  cases hchange with
  | none => rfl
  | entryAdded list prevOut => cases hadds
  | outputAdded output => cases hadds
  | entryFilled hentry hfills => exact Transfer.hashWithoutScript_setEntry hentry hfills.prevOut

theorem keepsEntries_leaveAll (calls : List TransferCall) (transfer : Transfer) :
    transfer.KeepsEntries (leaveAll calls transfer) := by
  induction calls generalizing transfer with
  | nil => exact .refl transfer
  | cons call rest ih => exact (call.change_leave transfer).keepsEntries.trans (ih _)

theorem hashWithoutScript_leaveAll {calls : List TransferCall}
    (hadds : ∀ call ∈ calls, call.adds = false) (transfer : Transfer) :
    (leaveAll calls transfer).hashWithoutScript = transfer.hashWithoutScript := by
  induction calls generalizing transfer with
  | nil => rfl
  | cons call rest ih =>
      obtain ⟨hcall, hrest⟩ := List.forall_mem_cons.mp hadds
      have hstep := (call.change_leave transfer).hashWithoutScript_eq hcall
      exact (ih hrest _).trans hstep

theorem exists_run_setScript_iff {transfer : Transfer} {list : EntryList} {i : Nat} {entry : Entry}
    (hentry : (transfer.entries list)[i]? = some entry) (role : Script.Role) (script : Bytes) :
    (∃ after, (setScript list i role script).perform.run transfer = .ok .done after) ↔
      entry.script role = [] := by
  rw [perform, EStateM.run_bind]
  constructor
  · rintro ⟨after, hrun⟩
    by_contra hset
    rw [Signing.run_setScript_of_set hentry hset] at hrun
    cases hrun
  · intro hblank
    rw [Signing.run_setScript hentry hblank]
    exact ⟨_, rfl⟩

/-- Between any two moments of a run of calls, every entry keeps its place and its out point, and
its scripts unless they are blank.  A call that fails changes nothing, the signed message changes
only when something is added, and a script can be set exactly while it is blank. -/
theorem scripts_written_once (transfer : Transfer) (earlier later : List TransferCall) :
    let before := leaveAll earlier transfer
    let after := leaveAll (earlier ++ later) transfer
    (∀ list (i : Nat) entry, (before.entries list)[i]? = some entry →
      ∃ filled, (after.entries list)[i]? = some filled ∧ filled.prevOut = entry.prevOut ∧
        ∀ role, entry.script role ≠ [] → filled.script role = entry.script role) ∧
    (∀ (call : TransferCall) fault changed,
      call.perform.run before = .error fault changed → changed = before) ∧
    ((∀ call ∈ later, call.adds = false) →
      after.hashWithoutScript = before.hashWithoutScript) ∧
    ∀ list (i : Nat) entry role script, (before.entries list)[i]? = some entry →
      ((∃ changed, (setScript list i role script).perform.run before = .ok .done changed) ↔
        entry.script role = []) := by
  intro before after
  have hafter : after = leaveAll later before := List.foldl_append
  refine ⟨?_, ?_, ?_, ?_⟩
  · intro list i entry hentry
    rw [hafter]
    obtain ⟨filled, hfilled, hfills⟩ := keepsEntries_leaveAll later before list i entry hentry
    exact ⟨filled, hfilled, hfills.prevOut, hfills.script⟩
  · intro call fault changed hrun
    rcases call.run_perform_cases before with ⟨fault', hfault⟩ | ⟨answer, after, hok, -⟩
    · rw [hfault] at hrun
      cases hrun
      rfl
    · rw [hok] at hrun
      cases hrun
  · intro hadds
    rw [hafter]
    exact hashWithoutScript_leaveAll hadds before
  · intro list i entry role script hentry
    exact exists_run_setScript_iff hentry role script

/-- Calls of which the first two fail once the input has a lock script. -/
def onceLocked : List TransferCall :=
  [.setScript .inputs 0 .lock [2], .sign SigningCall.blankService (.input .payToKey 0), .hash]

theorem scripts_written_once_onceLocked :
    let before := leaveAll [.setScript .inputs (-1) .lock [1]] SigningCall.twoUnsigned
    let after := leaveAll ([.setScript .inputs (-1) .lock [1]] ++ onceLocked)
      SigningCall.twoUnsigned
    (∃ filled, after.inputs[0]? = some filled ∧ filled.lockScript = [1]) ∧
      after.hashWithoutScript = before.hashWithoutScript ∧
      ¬∃ changed, (setScript .inputs 0 .lock [2]).perform.run before = .ok .done changed := by
  intro before after
  obtain ⟨hkept, -, hmessage, hsettable⟩ := scripts_written_once SigningCall.twoUnsigned
    [.setScript .inputs (-1) .lock [1]] onceLocked
  have hentry : (before.entries .inputs)[0]? =
      some ⟨⟨.zero 32, 0, .zero 32, ⟨1, Nat.one_pos⟩, some Script.payToKeyHash,
        some [SecretKey.one.publicKey.hash.bytes]⟩, [1], []⟩ := rfl
  refine ⟨?_, hmessage (by decide), ?_⟩
  · obtain ⟨filled, hfilled, -, hscripts⟩ := hkept .inputs 0 _ hentry
    exact ⟨filled, hfilled, hscripts .lock (by decide)⟩
  · intro hset
    exact absurd ((hsettable .inputs 0 _ .lock [2] hentry).mp hset) (by decide)

end TransferCall

end ShardLedger
