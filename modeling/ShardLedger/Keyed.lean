/-!
# Keyed lists

A list of pairs in which every key occurs at most once.  New keys go to the end, and a
key that is given a new value keeps its place.
-/

namespace ShardLedger.Keyed

variable {κ α : Type} [DecidableEq κ]

/-- Give a key a value, in its place if it has one and at the end otherwise. -/
def put (key : κ) (value : α) : List (κ × α) → List (κ × α)
  | [] => [(key, value)]
  | (k, v) :: rest => if k = key then (k, value) :: rest else (k, v) :: put key value rest

/-- Remove a key. -/
def erase (key : κ) : List (κ × α) → List (κ × α)
  | [] => []
  | (k, v) :: rest => if k = key then rest else (k, v) :: erase key rest

/-- The value of a key. -/
def get? (key : κ) : List (κ × α) → Option α
  | [] => none
  | (k, v) :: rest => if k = key then some v else get? key rest

/-- The keys in order. -/
def keys (entries : List (κ × α)) : List κ :=
  entries.map Prod.fst

@[simp]
theorem get?_put_self (key : κ) (value : α) (entries : List (κ × α)) :
    get? key (put key value entries) = some value := by
  induction entries with
  | nil => simp [put, get?]
  | cons entry rest ih =>
    obtain ⟨k, v⟩ := entry
    by_cases h : k = key <;> simp [put, get?, h, ih]

theorem get?_put_of_ne {key other : κ} (ne : other ≠ key) (value : α) (entries : List (κ × α)) :
    get? other (put key value entries) = get? other entries := by
  induction entries with
  | nil => simp [put, get?, ne.symm]
  | cons entry rest ih =>
    obtain ⟨k, v⟩ := entry
    by_cases h : k = key
    · subst h
      simp [put, get?, ne.symm]
    · simp [put, get?, h, ih]

/-- Giving a key the value it has changes nothing. -/
theorem put_of_get? {key : κ} {value : α} {entries : List (κ × α)}
    (h : get? key entries = some value) : put key value entries = entries := by
  induction entries with
  | nil => cases h
  | cons entry rest ih =>
    obtain ⟨k, v⟩ := entry
    by_cases hkey : k = key
    · rw [get?, if_pos hkey, Option.some.injEq] at h
      rw [put, if_pos hkey, h]
    · rw [get?, if_neg hkey] at h
      rw [put, if_neg hkey, ih h]

theorem get?_erase_of_ne {key other : κ} (ne : other ≠ key) (entries : List (κ × α)) :
    get? other (erase key entries) = get? other entries := by
  induction entries with
  | nil => rfl
  | cons entry rest ih =>
    obtain ⟨k, v⟩ := entry
    by_cases h : k = key
    · subst h
      simp [erase, get?, ne.symm]
    · simp [erase, get?, h, ih]

theorem get?_eq_none_iff {key : κ} {entries : List (κ × α)} :
    get? key entries = none ↔ key ∉ keys entries := by
  induction entries with
  | nil => simp [get?, keys]
  | cons entry rest ih =>
    obtain ⟨k, v⟩ := entry
    by_cases h : k = key
    · simp [get?, keys, h]
    · rw [get?, if_neg h, ih]
      simp [keys, Ne.symm h]

theorem keys_put (key : κ) (value : α) (entries : List (κ × α)) :
    keys (put key value entries) =
      if key ∈ keys entries then keys entries else keys entries ++ [key] := by
  induction entries with
  | nil => rfl
  | cons entry rest ih =>
    obtain ⟨k, v⟩ := entry
    by_cases h : k = key
    · simp [put, keys, h]
    · simp only [keys] at ih
      by_cases mem : key ∈ rest.map Prod.fst <;> simp [put, keys, h, Ne.symm h, ih, mem]

theorem keys_erase (key : κ) (entries : List (κ × α)) :
    keys (erase key entries) = (keys entries).erase key := by
  induction entries with
  | nil => rfl
  | cons entry rest ih =>
    obtain ⟨k, v⟩ := entry
    by_cases h : k = key
    · simp [erase, keys, h]
    · simp only [keys] at ih
      simp [erase, keys, h, ih]

theorem mem_keys_put {key other : κ} {value : α} {entries : List (κ × α)} :
    other ∈ keys (put key value entries) ↔ other = key ∨ other ∈ keys entries := by
  rw [keys_put]
  by_cases mem : key ∈ keys entries
  · rw [if_pos mem, iff_or_self]
    rintro rfl
    exact mem
  · rw [if_neg mem, List.mem_append, List.mem_singleton, or_comm]

theorem nodup_keys_put {entries : List (κ × α)} (nodup : (keys entries).Nodup) (key : κ)
    (value : α) : (keys (put key value entries)).Nodup := by
  rw [keys_put]
  by_cases mem : key ∈ keys entries
  · rw [if_pos mem]
    exact nodup
  · rw [if_neg mem]
    refine List.nodup_append.mpr ⟨nodup, by simp, ?_⟩
    intro other hother k hk same
    rw [List.mem_singleton] at hk
    rw [same, hk] at hother
    exact mem hother

theorem get?_erase_self {entries : List (κ × α)} (nodup : (keys entries).Nodup) (key : κ) :
    get? key (erase key entries) = none := by
  rw [get?_eq_none_iff, keys_erase, nodup.mem_erase_iff]
  exact fun mem => mem.1 rfl

end ShardLedger.Keyed
