import Mathlib.Data.List.Perm.Basic
import ShardLedger.Proofs.Keys.Signing

/-!
# Signing in any order

Two requests to sign that both succeed concern different entries, and neither changes
the entry or the message that the other one signs.  Neighbouring requests can therefore
change places, and the order of all of them does not matter.  A later request leaves the
entries that were authorized before it authorized, so that once every entry has been
signed, the whole transfer is authorized.
-/

namespace ShardLedger

namespace Authorizer

variable {authorizer : Authorizer} {service : KeyService} {transfer other : Transfer}
  {list : EntryList} {i : Nat} {entry : Entry} {hash : Digest} {unlock : Bytes}

/-- An entry can be signed wherever it stands at the same place under the same message. -/
theorem Ready.move (hready : authorizer.Ready service transfer list i entry hash unlock)
    (hentry : (other.entries list)[i]? = (transfer.entries list)[i]?)
    (hmessage : other.hashWithoutScript = transfer.hashWithoutScript) :
    authorizer.Ready service other list i entry hash unlock := by
  refine ⟨hentry.trans hready.entry_at, hready.awaits, ?_⟩
  rw [hmessage]
  exact hready.unlock

end Authorizer

/-! ## Authorized transfers -/

namespace Transfer

/-- The entry at a place is authorized for its list. -/
def IsAuthorized (transfer : Transfer) (list : EntryList) (i : Nat) : Prop :=
  ∃ steps, transfer.authorize .standard list i = .ok ⟨list.verdict, steps⟩

theorem verifyEntries_eq_ok {list : EntryList} {message : Digest} {entries : List Entry}
    (hall : ∀ entry ∈ entries, ∃ steps,
      authorizeEntry .standard list message entry = .ok ⟨list.verdict, steps⟩) (index : Nat) :
    verifyEntries .standard list message index entries = .ok () := by
  induction entries generalizing index with
  | nil => rfl
  | cons entry rest ih =>
      obtain ⟨hentry, hrest⟩ := List.forall_mem_cons.mp hall
      obtain ⟨steps, hauthorize⟩ := hentry
      rw [verifyEntries, hauthorize, ok_bind]
      cases list with
      | inputs => exact ih hrest (index + 1)
      | burns => exact ih hrest (index + 1)

/-- A transfer passes as a whole when each of its entries does. -/
theorem verify_eq_ok {transfer : Transfer}
    (hall : ∀ list i, i < (transfer.entries list).length → transfer.IsAuthorized list i) :
    transfer.verify .standard = .ok () := by
  have hentries : ∀ list, ∀ entry ∈ transfer.entries list, ∃ steps,
      authorizeEntry .standard list transfer.hashWithoutScript entry =
        .ok ⟨list.verdict, steps⟩ := by
    intro list entry hmem
    obtain ⟨i, hi, rfl⟩ := List.getElem_of_mem hmem
    obtain ⟨steps, hauthorize⟩ := hall list i hi
    have hitem : itemAt? (transfer.entries list) (i : Int) = some (transfer.entries list)[i] :=
      List.getElem?_eq_getElem hi
    rw [authorize_of_itemAt? list hitem] at hauthorize
    exact ⟨steps, hauthorize⟩
  have hinputs := verifyEntries_eq_ok (hentries .inputs) 0
  have hburns := verifyEntries_eq_ok (hentries .burns) 0
  simp only [entries] at hinputs hburns
  rw [verify, hinputs, ok_bind, hburns]

end Transfer

namespace SigningCall

/-- Carry out requests one after the other, up to the first one that fails. -/
def signAll (service : KeyService) : List SigningCall → Signing Unit
  | [] => pure ()
  | call :: rest => do
    call.sign service
    signAll service rest

variable {service : KeyService} {transfer after : Transfer} {calls calls' : List SigningCall}

/-! ## One request -/

/-- Whether the authorizer of a request serves the list with the entry. -/
def IsServed : SigningCall → Prop
  | input authorizer _ => authorizer = .payToKey
  | burn _ => True

theorem run_sign_eq_ok_iff {call : SigningCall} :
    (call.sign service).run transfer = .ok () after ↔
      call.IsServed ∧ ∃ (i : Nat) (entry : Entry) (hash : Digest) (unlock : Bytes),
        call.index = i ∧
        call.list.authorizer.Ready service transfer call.list i entry hash unlock ∧
        after = transfer.setEntry call.list i (call.list.authorizer.filled entry unlock) := by
  constructor
  · intro hafter
    have hserved : call.IsServed := by
      cases call with
      | input authorizer index =>
          cases authorizer with
          | payToKey => rfl
          | burnWithKey => cases hafter
      | burn index => trivial
    rcases run_sign_cases service call transfer with
      ⟨fault, hfault⟩ | ⟨i, entry, hash, unlock, hindex, hready, hrun⟩
    · rw [hfault] at hafter
      cases hafter
    · rw [hrun] at hafter
      cases hafter
      exact ⟨hserved, i, entry, hash, unlock, hindex, hready, rfl⟩
  · rintro ⟨hserved, i, entry, hash, unlock, hindex, hready, rfl⟩
    cases call with
    | input authorizer index =>
        obtain rfl : authorizer = .payToKey := hserved
        obtain rfl : index = i := hindex
        exact hready.run_fillAt
    | burn index =>
        obtain rfl : index = i := hindex
        exact hready.run_fillAt

/-- Two requests that succeed one after the other also succeed the other way round, with the same
result. -/
theorem run_sign_swap {first second : SigningCall} {middle : Transfer}
    (hfirst : (first.sign service).run transfer = .ok () middle)
    (hsecond : (second.sign service).run middle = .ok () after) :
    ∃ middle', (second.sign service).run transfer = .ok () middle' ∧
      (first.sign service).run middle' = .ok () after := by
  obtain ⟨hserved, i, entry, hash, unlock, hindex, hready, rfl⟩ := run_sign_eq_ok_iff.mp hfirst
  obtain ⟨hserved', j, entry', hash', unlock', hindex', hready', rfl⟩ :=
    run_sign_eq_ok_iff.mp hsecond
  -- The second request found an entry without scripts, so the first one filled in another entry.
  have hne : ¬(first.list = second.list ∧ i = j) := by
    rintro ⟨hlist, rfl⟩
    have hsame := hready'.entry_at
    rw [← hlist, Transfer.getElem?_setEntry hready.entry_at, Option.some.injEq] at hsame
    have hblank := hready'.awaits.lock_blank
    rw [← hsame] at hblank
    exact Authorizer.lockScript_ne_nil _ hblank
  have hne' : ¬(second.list = first.list ∧ j = i) := fun ⟨hlist, hij⟩ => hne ⟨hlist.symm, hij.symm⟩
  have hready₂ := hready'.move (Transfer.getElem?_setEntry_of_ne hne transfer _).symm
    hready.hashWithoutScript_eq.symm
  have hready₁ := hready.move (Transfer.getElem?_setEntry_of_ne hne' transfer _)
    hready₂.hashWithoutScript_eq
  refine ⟨_, run_sign_eq_ok_iff.mpr ⟨hserved', j, entry', hash', unlock', hindex', hready₂, rfl⟩,
    run_sign_eq_ok_iff.mpr ⟨hserved, i, entry, hash, unlock, hindex, hready₁, ?_⟩⟩
  exact Transfer.setEntry_comm hne transfer _ _

theorem length_entries_of_run_sign {call : SigningCall}
    (hrun : (call.sign service).run transfer = .ok () after) (list : EntryList) :
    (after.entries list).length = (transfer.entries list).length := by
  obtain ⟨-, i, entry, hash, unlock, -, -, rfl⟩ := run_sign_eq_ok_iff.mp hrun
  exact Transfer.length_entries_setEntry transfer call.list list i _

/-- A request authorizes its entry and leaves authorized what was authorized before. -/
theorem isAuthorized_of_run_sign (hservice : service.Honest) {call : SigningCall}
    (hrun : (call.sign service).run transfer = .ok () after) {list : EntryList} {j : Nat}
    (hplace : call.list = list ∧ call.index = j ∨ transfer.IsAuthorized list j) :
    after.IsAuthorized list j := by
  obtain ⟨-, i, entry, hash, unlock, hindex, hready, rfl⟩ := run_sign_eq_ok_iff.mp hrun
  by_cases hsame : call.list = list ∧ i = j
  · obtain ⟨rfl, rfl⟩ := hsame
    exact hready.authorize hservice
  · rcases hplace with ⟨hlist, hj⟩ | ⟨steps, hauthorize⟩
    · have hij : i = j := by omega
      exact absurd ⟨hlist, hij⟩ hsame
    · refine ⟨steps, ?_⟩
      have hentry := Transfer.getElem?_setEntry_of_ne hsame transfer
        (call.list.authorizer.filled entry unlock)
      rw [← hauthorize]
      unfold Transfer.authorize
      rw [hready.hashWithoutScript_eq]
      have hitem : itemAt? _ (j : Int) = itemAt? (transfer.entries list) j := hentry
      rw [hitem]

/-! ## Many requests -/

theorem run_signAll_cons_eq_ok_iff {call : SigningCall} :
    (signAll service (call :: calls)).run transfer = .ok () after ↔
      ∃ middle, (call.sign service).run transfer = .ok () middle ∧
        (signAll service calls).run middle = .ok () after := by
  rw [signAll, EStateM.run_bind]
  constructor
  · intro hrun
    split at hrun
    next middle hmiddle => exact ⟨middle, hmiddle, hrun⟩
    next => cases hrun
  · rintro ⟨middle, hmiddle, hrest⟩
    rw [hmiddle]
    exact hrest

theorem run_signAll_of_perm (hperm : calls.Perm calls')
    (hrun : (signAll service calls).run transfer = .ok () after) :
    (signAll service calls').run transfer = .ok () after := by
  induction hperm generalizing transfer with
  | nil => exact hrun
  | cons call _ ih =>
      obtain ⟨middle, hcall, hrest⟩ := run_signAll_cons_eq_ok_iff.mp hrun
      exact run_signAll_cons_eq_ok_iff.mpr ⟨middle, hcall, ih hrest⟩
  | swap first second rest =>
      obtain ⟨middle₁, hsecond, hrun⟩ := run_signAll_cons_eq_ok_iff.mp hrun
      obtain ⟨middle₂, hfirst, hrest⟩ := run_signAll_cons_eq_ok_iff.mp hrun
      obtain ⟨middle, hfirst', hsecond'⟩ := run_sign_swap hsecond hfirst
      exact run_signAll_cons_eq_ok_iff.mpr
        ⟨middle, hfirst', run_signAll_cons_eq_ok_iff.mpr ⟨middle₂, hsecond', hrest⟩⟩
  | trans _ _ ih ih' => exact ih' (ih hrun)

theorem length_entries_of_run_signAll
    (hrun : (signAll service calls).run transfer = .ok () after) (list : EntryList) :
    (after.entries list).length = (transfer.entries list).length := by
  induction calls generalizing transfer with
  | nil =>
      cases hrun
      rfl
  | cons call rest ih =>
      obtain ⟨middle, hcall, hrest⟩ := run_signAll_cons_eq_ok_iff.mp hrun
      rw [ih hrest, length_entries_of_run_sign hcall]

/-- Requests authorize their entries, and leave authorized what was authorized before. -/
theorem isAuthorized_of_run_signAll (hservice : service.Honest)
    (hrun : (signAll service calls).run transfer = .ok () after) {list : EntryList} {j : Nat}
    (hplace : (∃ call ∈ calls, call.list = list ∧ call.index = j) ∨ transfer.IsAuthorized list j) :
    after.IsAuthorized list j := by
  induction calls generalizing transfer with
  | nil =>
      cases hrun
      rcases hplace with ⟨call, hmem, -⟩ | hauthorized
      · exact absurd hmem List.not_mem_nil
      · exact hauthorized
  | cons call rest ih =>
      obtain ⟨middle, hcall, hrest⟩ := run_signAll_cons_eq_ok_iff.mp hrun
      apply ih hrest
      rcases hplace with ⟨call', hmem, hplace⟩ | hauthorized
      · rcases List.mem_cons.mp hmem with rfl | hmem
        · exact Or.inr (isAuthorized_of_run_sign hservice hcall (Or.inl hplace))
        · exact Or.inl ⟨call', hmem, hplace⟩
      · exact Or.inr (isAuthorized_of_run_sign hservice hcall (Or.inr hauthorized))

/-- Every entry of a transfer has its request. -/
def Cover (calls : List SigningCall) (transfer : Transfer) : Prop :=
  ∀ list (i : Nat), i < (transfer.entries list).length →
    ∃ call ∈ calls, call.list = list ∧ call.index = i

/-- With the keys of a ring, the order of requests to sign makes no difference, and when every
input and every burn has been signed, the transfer is authorized.  A repeated request fails, so
nothing needs to be said about repetitions. -/
theorem sign_in_any_order {ring : KeyRing} (hring : ring.Reachable)
    (hperm : calls.Perm calls') (transfer : Transfer) :
    (∀ after, (signAll ring.service calls).run transfer = .ok () after ↔
      (signAll ring.service calls').run transfer = .ok () after) ∧
    (Cover calls transfer →
      ∀ after, (signAll ring.service calls).run transfer = .ok () after →
        after.verify .standard = .ok ()) := by
  constructor
  · intro after
    constructor
    · intro hrun
      exact run_signAll_of_perm hperm hrun
    · intro hrun
      exact run_signAll_of_perm hperm.symm hrun
  · intro hcover after hrun
    apply Transfer.verify_eq_ok
    intro list i hi
    rw [length_entries_of_run_signAll hrun] at hi
    exact isAuthorized_of_run_signAll hring.honest hrun (Or.inl (hcover list i hi))

theorem sign_in_any_order_twoUnsigned :
    oneKeyRing.Reachable ∧
    [input .payToKey 0, burn 0].Perm [burn 0, input .payToKey 0] ∧
    ∃ after,
      (signAll oneKeyRing.service [input .payToKey 0, burn 0]).run twoUnsigned = .ok () after ∧
        (signAll oneKeyRing.service [burn 0, input .payToKey 0]).run twoUnsigned = .ok () after ∧
          after.verify .standard = .ok () := by
  have hring : oneKeyRing.Reachable := KeyRing.Reachable.empty.add _
  have hperm : [input .payToKey 0, burn 0].Perm [burn 0, input .payToKey 0] :=
    List.Perm.swap _ _ _
  have hcover : Cover [input .payToKey 0, burn 0] twoUnsigned := by
    intro list i hi
    have hfirst : i = 0 := by
      cases list with
      | inputs => exact Nat.lt_one_iff.mp hi
      | burns => exact Nat.lt_one_iff.mp hi
    subst hfirst
    cases list with
    | inputs => exact ⟨input .payToKey 0, by decide, rfl, rfl⟩
    | burns => exact ⟨burn 0, by decide, rfl, rfl⟩
  obtain ⟨after, hrun⟩ : ∃ after,
      (signAll oneKeyRing.service [input .payToKey 0, burn 0]).run twoUnsigned = .ok () after := by
    obtain ⟨unlock, hunlock⟩ := exists_unlockScript_twoUnsigned
    have hinput : Authorizer.payToKey.Ready oneKeyRing.service twoUnsigned .inputs 0 _
        SecretKey.one.publicKey.hash unlock := ⟨rfl, ⟨rfl, rfl, rfl, rfl⟩, hunlock⟩
    have hburn : Authorizer.burnWithKey.Ready oneKeyRing.service twoUnsigned .burns 0 _
        SecretKey.one.publicKey.hash unlock := ⟨rfl, ⟨rfl, rfl, rfl, rfl⟩, hunlock⟩
    -- The input that was signed first changes neither the burn nor the message.
    have hburn' := hburn.move (by rfl) hinput.hashWithoutScript_eq
    exact ⟨_, run_signAll_cons_eq_ok_iff.mpr ⟨_, hinput.run_fillAt,
      run_signAll_cons_eq_ok_iff.mpr ⟨_, hburn'.run_fillAt, rfl⟩⟩⟩
  obtain ⟨horder, hverify⟩ := sign_in_any_order hring hperm twoUnsigned
  exact ⟨hring, hperm, after, hrun, (horder after).mp hrun, hverify hcover after hrun⟩

end SigningCall

end ShardLedger
