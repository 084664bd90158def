import ShardLedger.Keyed

/-!
# Keyed lists as mappings

A keyed list in which no key occurs twice is a mapping: it holds exactly the pairs that are
looked up in it, whatever their order, and with its keys in order it is determined by what is
looked up.
-/

namespace ShardLedger.Keyed

variable {κ α : Type} [DecidableEq κ] {key : κ} {value : α} {entries : List (κ × α)}

theorem mem_of_get? (hget : get? key entries = some value) : (key, value) ∈ entries := by
  induction entries with
  | nil => cases hget
  | cons entry rest ih =>
      obtain ⟨k, v⟩ := entry
      rw [get?] at hget
      by_cases hk : k = key
      · rw [if_pos hk, Option.some.injEq] at hget
        rw [hk, hget]
        exact List.mem_cons_self
      · rw [if_neg hk] at hget
        exact List.mem_cons_of_mem _ (ih hget)

theorem eq_or_mem_of_mem_put {entry : κ × α} (hmem : entry ∈ put key value entries) :
    entry = (key, value) ∨ entry ∈ entries := by
  induction entries with
  | nil => exact Or.inl (List.mem_singleton.mp hmem)
  | cons first rest ih =>
      obtain ⟨k, v⟩ := first
      rw [put] at hmem
      by_cases hk : k = key
      · rw [if_pos hk, List.mem_cons, hk] at hmem
        exact hmem.imp_right (List.mem_cons_of_mem _)
      · rw [if_neg hk, List.mem_cons] at hmem
        rcases hmem with rfl | hmem
        · exact Or.inr List.mem_cons_self
        · exact (ih hmem).imp_right (List.mem_cons_of_mem _)

theorem mem_of_mem_erase {entry : κ × α} (hmem : entry ∈ erase key entries) :
    entry ∈ entries := by
  induction entries with
  | nil => exact hmem
  | cons first rest ih =>
      obtain ⟨k, v⟩ := first
      rw [erase] at hmem
      by_cases hk : k = key
      · rw [if_pos hk] at hmem
        exact List.mem_cons_of_mem _ hmem
      · rw [if_neg hk, List.mem_cons] at hmem
        rcases hmem with rfl | hmem
        · exact List.mem_cons_self
        · exact List.mem_cons_of_mem _ (ih hmem)

/-- Without a repeated key, a key has the one value that it is paired with. -/
theorem get?_eq_some_iff (nodup : (keys entries).Nodup) :
    get? key entries = some value ↔ (key, value) ∈ entries := by
  refine ⟨mem_of_get?, fun hmem => ?_⟩
  induction entries with
  | nil => cases hmem
  | cons entry rest ih =>
      obtain ⟨k, v⟩ := entry
      obtain ⟨hk, hrest⟩ := List.nodup_cons.mp nodup
      rw [get?]
      rcases List.mem_cons.mp hmem with hentry | hmem
      · obtain ⟨rfl, rfl⟩ := Prod.mk.inj hentry
        rw [if_pos rfl]
      · rw [if_neg, ih hrest hmem]
        rintro rfl
        exact hk (List.mem_map.mpr ⟨_, hmem, rfl⟩)

/-- The order of the pairs does not matter to what is looked up. -/
theorem get?_of_perm {others : List (κ × α)} (nodup : (keys entries).Nodup)
    (hperm : entries.Perm others) (key : κ) : get? key entries = get? key others := by
  have hothers : (keys others).Nodup := (hperm.map Prod.fst).nodup_iff.mp nodup
  apply Option.ext
  intro value
  rw [get?_eq_some_iff nodup, get?_eq_some_iff hothers, hperm.mem_iff]

/-- Two keyed lists with the same keys in the same order, under which the same values are looked
up, are the same. -/
theorem eq_of_get?_eq {others : List (κ × α)} (nodup : (keys entries).Nodup)
    (hkeys : keys entries = keys others) (hget : ∀ key, get? key entries = get? key others) :
    entries = others := by
  induction entries generalizing others with
  | nil => exact (List.map_eq_nil_iff.mp hkeys.symm).symm
  | cons entry rest ih =>
      cases others with
      | nil => cases hkeys
      | cons other later =>
          obtain ⟨k, v⟩ := entry
          obtain ⟨k', v'⟩ := other
          obtain ⟨rfl, hlater⟩ : k = k' ∧ keys rest = keys later := List.cons.inj hkeys
          obtain ⟨hk, hrest⟩ := List.nodup_cons.mp nodup
          have hhere := hget k
          rw [get?, get?, if_pos rfl, if_pos rfl] at hhere
          have htail : rest = later := by
            refine ih hrest hlater fun key => ?_
            by_cases hkey : k = key
            · subst hkey
              rw [get?_eq_none_iff.mpr hk, get?_eq_none_iff.mpr (hlater ▸ hk)]
            · have hthere := hget key
              rwa [get?, get?, if_neg hkey, if_neg hkey] at hthere
          rw [Option.some.inj hhere, htail]

end ShardLedger.Keyed
