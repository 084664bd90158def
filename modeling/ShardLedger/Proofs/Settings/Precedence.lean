import Mathlib.Data.List.Nodup
import ShardLedger.Proofs.Fault
import ShardLedger.Proofs.Keyed
import ShardLedger.Settings.Basic

/-!
# Which value counts

The file that `config_path` names fills in what is not given: a name without a value, or with
`null`, takes the value of the file, two mappings are merged name by name, and everything else stays
as it was given.  The order of the names in the file does not matter, and merging it again changes
nothing.  All this holds however the text of a file is loaded.
-/

namespace ShardLedger.Settings

/-! ## Distinct names -/

/-- No name occurs twice in a value that is a mapping. -/
def Value.HasDistinctNames (value : Value) : Prop :=
  ∀ fields, value = .mapping fields → (Keyed.keys fields).Nodup

/-- Fields with distinct names, of which those that are mappings have distinct names as well. -/
structure IsMapping (fields : List (Name × Value)) : Prop where
  nodup : (Keyed.keys fields).Nodup
  inner : ∀ name value, (name, value) ∈ fields → value.HasDistinctNames

/-- What is known of the loader: an empty text stands for nothing, and the names in a mapping are
distinct. -/
structure IsLoader (load : String → Except LoadError Value) : Prop where
  empty : load "" = .ok .null
  distinct : ∀ text fields, load text = .ok (.mapping fields) → IsMapping fields

theorem Value.hasDistinctNames_of_ne {value : Value} (hne : ∀ fields, value ≠ .mapping fields) :
    value.HasDistinctNames :=
  fun fields hvalue => absurd hvalue (hne fields)

theorem Value.hasDistinctNames_mapping {fields : List (Name × Value)} :
    (Value.mapping fields).HasDistinctNames ↔ (Keyed.keys fields).Nodup := by
  constructor
  · intro hdistinct
    exact hdistinct fields rfl
  · rintro hnodup _ ⟨⟩
    exact hnodup

theorem IsMapping.put {fields : List (Name × Value)} (hfields : IsMapping fields) (name : Name)
    {value : Value} (hvalue : value.HasDistinctNames) :
    IsMapping (Keyed.put name value fields) := by
  refine ⟨Keyed.nodup_keys_put hfields.nodup name value, ?_⟩
  intro other inner hmem
  rcases Keyed.eq_or_mem_of_mem_put hmem with hnew | hold
  · obtain ⟨rfl, rfl⟩ := Prod.mk.inj hnew
    exact hvalue
  · exact hfields.inner other inner hold

theorem IsMapping.get? {fields : List (Name × Value)} (hfields : IsMapping fields) {name : Name}
    {value : Value} (hvalue : Keyed.get? name fields = some value) : value.HasDistinctNames :=
  hfields.inner name value (Keyed.mem_of_get? hvalue)

/-! ## Mappings laid over others -/

section

variable {κ : Type} [DecidableEq κ] {fields later : List (κ × Value)}

theorem replaceAll_cons (name : κ) (value : Value) : replaceAll fields ((name, value) :: later) =
    replaceAll (Keyed.put name value fields) later := rfl

theorem get?_replaceAll (hlater : (Keyed.keys later).Nodup) (name : κ) :
    Keyed.get? name (replaceAll fields later) =
      (Keyed.get? name later).or (Keyed.get? name fields) := by
  induction later generalizing fields with
  | nil => rfl
  | cons entry later ih =>
      obtain ⟨key, value⟩ := entry
      obtain ⟨hkey, hrest⟩ := List.nodup_cons.mp hlater
      rw [replaceAll_cons, ih hrest, Keyed.get?]
      by_cases hname : key = name
      · subst hname
        rw [Keyed.get?_eq_none_iff.mpr hkey, Keyed.get?_put_self, if_pos rfl]
        rfl
      · rw [Keyed.get?_put_of_ne (Ne.symm hname), if_neg hname]

theorem nodup_replaceAll (hfields : (Keyed.keys fields).Nodup) :
    (Keyed.keys (replaceAll fields later)).Nodup := by
  induction later generalizing fields with
  | nil => exact hfields
  | cons entry later ih => exact ih (Keyed.nodup_keys_put hfields entry.1 entry.2)

/-- New names go behind the others, in their order. -/
theorem keys_replaceAll (hlater : (Keyed.keys later).Nodup) :
    Keyed.keys (replaceAll fields later) =
      Keyed.keys fields ++ (Keyed.keys later).filter (· ∉ Keyed.keys fields) := by
  induction later generalizing fields with
  | nil => exact (List.append_nil _).symm
  | cons entry later ih =>
      obtain ⟨key, value⟩ := entry
      obtain ⟨hkey, hrest⟩ := List.nodup_cons.mp hlater
      have hcons : Keyed.keys ((key, value) :: later) = key :: Keyed.keys later := rfl
      rw [replaceAll_cons, ih hrest, Keyed.keys_put, hcons]
      by_cases hmem : key ∈ Keyed.keys fields
      · rw [if_pos hmem, List.filter_cons_of_neg (by simpa using hmem)]
      · have hfilter : (Keyed.keys later).filter (· ∉ Keyed.keys fields ++ [key]) =
            (Keyed.keys later).filter (· ∉ Keyed.keys fields) := by
          refine List.filter_congr fun name hname => ?_
          have hne : name ≠ key := fun hsame => hkey (hsame ▸ hname)
          simp [hne]
        rw [if_neg hmem, List.filter_cons_of_pos (by simpa using hmem), hfilter, List.append_assoc,
          List.singleton_append]

theorem replaceAll_self (hfields : (Keyed.keys fields).Nodup) :
    replaceAll fields fields = fields := by
  refine (Keyed.eq_of_get?_eq hfields ?_ fun name => ?_).symm
  · rw [keys_replaceAll hfields]
    simp
  · rw [get?_replaceAll hfields, Option.or_self]

/-- Laying the result over the same fields again changes nothing. -/
theorem replaceAll_replaceAll (hfields : (Keyed.keys fields).Nodup)
    (hlater : (Keyed.keys later).Nodup) :
    replaceAll fields (replaceAll fields later) = replaceAll fields later := by
  have hnodup : (Keyed.keys (replaceAll fields later)).Nodup := nodup_replaceAll hfields
  refine (Keyed.eq_of_get?_eq hnodup ?_ fun name => ?_).symm
  · rw [keys_replaceAll hnodup, keys_replaceAll hlater]
    simp
  · rw [get?_replaceAll hnodup, get?_replaceAll hlater, Option.or_assoc, Option.or_self]

end

/-! ## One name -/

/-- What a name has after the merge, by what is given for it and what the file says. -/
inductive Settles : Option Value → Option Value → Option Value → Prop
  | absent : Settles none none none
  | filled {given : Option Value} (value : Value) (hgiven : given = none ∨ given = some .null) :
      Settles given (some value) (some value)
  | united {own more both : List (Name × Value)}
      (hboth : ∀ name, Keyed.get? name both = (Keyed.get? name own).or (Keyed.get? name more)) :
      Settles (some (.mapping own)) (some (.mapping more)) (some (.mapping both))
  | kept {given : Value} {value : Option Value}
      (hkept : value = none ∨
        given ≠ .null ∧ ∀ own more, ¬(given = .mapping own ∧ value = some (.mapping more))) :
      Settles (some given) value (some given)

/-- What the value of a file becomes under what is given for its name. -/
def settle : Option Value → Value → Value
  | none, value => value
  | some .null, value => value
  | some (.mapping own), .mapping more => .mapping (replaceAll more own)
  | some given, _ => given

/-- A name that the file has is filled in, united or kept. -/
theorem settle_cases (given : Option Value) (value : Value) :
    ((given = none ∨ given = some .null) ∧ settle given value = value) ∨
      (∃ own more, given = some (.mapping own) ∧ value = .mapping more ∧
        settle given value = .mapping (replaceAll more own)) ∨
      ∃ own, given = some own ∧ own ≠ .null ∧
        (∀ inner more, ¬(own = .mapping inner ∧ value = .mapping more)) ∧
        settle given value = own := by
  unfold settle
  split
  next => exact Or.inl ⟨Or.inl rfl, rfl⟩
  next => exact Or.inl ⟨Or.inr rfl, rfl⟩
  next own more => exact Or.inr (Or.inl ⟨own, more, rfl, rfl, rfl⟩)
  next own hnull hmapping =>
    refine Or.inr (Or.inr ⟨own, rfl, hnull, ?_, rfl⟩)
    rintro inner more ⟨rfl, rfl⟩
    exact hmapping inner more rfl rfl

/-- A name that the file does not have keeps what is given for it. -/
def settle? (given value : Option Value) : Option Value :=
  match value with
  | none => given
  | some value => some (settle given value)

theorem settles_settle? {given : Option Value} (value : Option Value)
    (hgiven : ∀ d, given = some d → d.HasDistinctNames) :
    Settles given value (settle? given value) := by
  cases value with
  | none =>
      cases given with
      | none => exact .absent
      | some given => exact .kept (Or.inl rfl)
  | some value =>
      rw [settle?]
      rcases settle_cases given value with ⟨hempty, hsettle⟩ | ⟨own, more, rfl, rfl, hsettle⟩ |
        ⟨own, rfl, hnull, hmapping, hsettle⟩
      · rw [hsettle]
        exact .filled value hempty
      · rw [hsettle]
        exact .united (get?_replaceAll (hgiven _ rfl own rfl))
      · rw [hsettle]
        refine .kept (Or.inr ⟨hnull, ?_⟩)
        rintro inner more ⟨hinner, hmore⟩
        exact hmapping inner more ⟨hinner, Option.some.inj hmore⟩

theorem hasDistinctNames_settle {given : Option Value} {value : Value}
    (hgiven : ∀ d, given = some d → d.HasDistinctNames) (hvalue : value.HasDistinctNames) :
    (settle given value).HasDistinctNames := by
  rcases settle_cases given value with ⟨-, hsettle⟩ | ⟨own, more, rfl, rfl, hsettle⟩ |
    ⟨own, rfl, -, -, hsettle⟩
  · rwa [hsettle]
  · rw [hsettle]
    exact Value.hasDistinctNames_mapping.mpr
      (nodup_replaceAll (Value.hasDistinctNames_mapping.mp hvalue))
  · rw [hsettle]
    exact hgiven own rfl

/-- What has been settled stays as it is when the same value comes again. -/
theorem settle_settle {given : Option Value} {value : Value}
    (hgiven : ∀ d, given = some d → d.HasDistinctNames) (hvalue : value.HasDistinctNames) :
    settle (some (settle given value)) value = settle given value := by
  rcases settle_cases given value with ⟨-, hsettle⟩ | ⟨own, more, rfl, rfl, hsettle⟩ |
    ⟨own, rfl, hnull, hmapping, hsettle⟩
  · -- What was filled in is the value itself, which may be a mapping and unite with itself.
    rw [hsettle]
    rcases settle_cases (some value) value with ⟨-, hagain⟩ | ⟨own, more, hown, rfl, hagain⟩ |
      ⟨own, hown, -, -, hagain⟩
    · exact hagain
    · obtain rfl : more = own := Value.mapping.inj (Option.some.inj hown)
      rw [hagain, replaceAll_self (Value.hasDistinctNames_mapping.mp hvalue)]
    · rw [hagain, Option.some.inj hown]
  · rw [hsettle]
    exact congrArg Value.mapping (replaceAll_replaceAll (hvalue more rfl) (hgiven _ rfl own rfl))
  · rw [hsettle, hsettle]

/-- Two values are the same, or they are mappings with the same value under every name. -/
inductive Alike : Option Value → Option Value → Prop
  | refl (value : Option Value) : Alike value value
  | reordered {own other : List (Name × Value)}
      (hsame : ∀ name, Keyed.get? name own = Keyed.get? name other) :
      Alike (some (.mapping own)) (some (.mapping other))

/-- The order of the names in a mapping of the file does not matter. -/
theorem alike_settle? {given value other : Option Value}
    (hgiven : ∀ d, given = some d → d.HasDistinctNames) (halike : Alike value other) :
    Alike (settle? given value) (settle? given other) := by
  cases halike with
  | refl => exact .refl _
  | reordered hsame =>
      cases given with
      | none => exact .reordered hsame
      | some given =>
          cases given with
          | null => exact .reordered hsame
          | mapping own =>
              have hown := hgiven _ rfl own rfl
              refine .reordered fun name => ?_
              rw [get?_replaceAll hown, get?_replaceAll hown, hsame]
          | bool | int | real | text | bytes | other | list => exact .refl _

/-! ## All names -/

theorem mergeField_eq_put (fields : List (Name × Value)) (name : Name) (value : Value) :
    mergeField fields name value =
      Keyed.put name (settle (Keyed.get? name fields) value) fields := by
  unfold mergeField
  cases hget : Keyed.get? name fields with
  | none => rfl
  | some given =>
      cases given with
      | null => rfl
      | mapping own =>
          cases value with
          | mapping more => rfl
          | null | bool | int | real | text | bytes | other | list =>
              exact (Keyed.put_of_get? hget).symm
      | bool | int | real | text | bytes | other | list => exact (Keyed.put_of_get? hget).symm

theorem mergeFile_cons (fields file : List (Name × Value)) (name : Name) (value : Value) :
    mergeFile fields ((name, value) :: file) =
      mergeFile (Keyed.put name (settle (Keyed.get? name fields) value) fields) file := by
  rw [← mergeField_eq_put]
  rfl

/-- A name is settled by what is given for it and what the file says about it alone. -/
theorem get?_mergeFile {fields file : List (Name × Value)} (hfile : (Keyed.keys file).Nodup)
    (name : Name) : Keyed.get? name (mergeFile fields file) =
      settle? (Keyed.get? name fields) (Keyed.get? name file) := by
  induction file generalizing fields with
  | nil => rfl
  | cons entry file ih =>
      obtain ⟨key, value⟩ := entry
      obtain ⟨hkey, hrest⟩ := List.nodup_cons.mp hfile
      rw [mergeFile_cons, ih hrest, Keyed.get?]
      -- The rest of the file does not have `key` again, so what is settled for it here stays.
      by_cases hname : key = name
      · subst hname
        rw [Keyed.get?_eq_none_iff.mpr hkey, Keyed.get?_put_self, if_pos rfl]
        rfl
      · rw [Keyed.get?_put_of_ne (Ne.symm hname), if_neg hname]

theorem isMapping_mergeFile {fields file : List (Name × Value)} (hfields : IsMapping fields)
    (hfile : IsMapping file) : IsMapping (mergeFile fields file) := by
  induction file generalizing fields with
  | nil => exact hfields
  | cons entry file ih =>
      obtain ⟨name, value⟩ := entry
      have hrest : IsMapping file :=
        ⟨(List.nodup_cons.mp hfile.nodup).2,
          fun other inner hmem => hfile.inner other inner (List.mem_cons_of_mem _ hmem)⟩
      have hvalue := hfile.inner name value List.mem_cons_self
      rw [mergeFile_cons]
      refine ih (hfields.put name ?_) hrest
      exact hasDistinctNames_settle (fun _ hget => hfields.get? hget) hvalue

/-- Merging fields that are settled changes nothing. -/
theorem mergeFile_of_settled {fields file : List (Name × Value)}
    (hsettled : ∀ name value, (name, value) ∈ file →
      ∃ given, Keyed.get? name fields = some given ∧ settle (some given) value = given) :
    mergeFile fields file = fields := by
  induction file with
  | nil => rfl
  | cons entry file ih =>
      obtain ⟨name, value⟩ := entry
      obtain ⟨given, hget, hsettle⟩ := hsettled name value List.mem_cons_self
      have hsame : Keyed.put name (settle (Keyed.get? name fields) value) fields = fields := by
        rw [hget, hsettle]
        exact Keyed.put_of_get? hget
      rw [mergeFile_cons, hsame]
      exact ih fun other inner hmem => hsettled other inner (List.mem_cons_of_mem _ hmem)

/-- Merging the same file again changes nothing. -/
theorem mergeFile_mergeFile {fields file : List (Name × Value)} (hfields : IsMapping fields)
    (hfile : IsMapping file) :
    mergeFile (mergeFile fields file) file = mergeFile fields file := by
  refine mergeFile_of_settled fun name value hmem => ?_
  have hvalue : Keyed.get? name file = some value :=
    (Keyed.get?_eq_some_iff hfile.nodup).mpr hmem
  refine ⟨settle (Keyed.get? name fields) value, ?_, ?_⟩
  · rw [get?_mergeFile hfile.nodup, hvalue, settle?]
  · exact settle_settle (fun _ hget => hfields.get? hget) (hfile.get? hvalue)

/-! ## The file -/

theorem settle?_text (path : String) (value : Option Value) :
    settle? (some (.text path)) value = some (.text path) := by
  cases value with
  | none => rfl
  | some value => cases value <;> rfl

section

variable {load : String → Except LoadError Value} {find : String → Option String}
  {fields : List (Name × Value)} {path text : String}

theorem readFile_of_ne_mapping {value : Value} (hload : load text = .ok value)
    (hne : ∀ file, value ≠ .mapping file) : readFile load text = .ok [] := by
  rw [readFile, hload]
  cases value with
  | mapping file => exact absurd rfl (hne file)
  | null | bool | int | real | text | bytes | other | list => rfl

theorem readFile_of_mapping {file : List (Name × Value)} (hload : load text = .ok (.mapping file)) :
    readFile load text = .ok file := by
  rw [readFile, hload]

variable (hpath : Keyed.get? (.text "config_path") fields = some (.text path)) (hne : path ≠ "")

include hpath hne

theorem withFile_of_absent (habsent : find path = none) :
    withFile load find fields = .ok fields := by
  have hblank : (Value.text path).isBlank = false := by
    simpa [Value.isBlank] using hne
  simp [withFile, hpath, hblank, habsent]

theorem withFile_of_present (htext : find path = some text) {file : List (Name × Value)}
    (hread : readFile load text = .ok file) :
    withFile load find fields = .ok (mergeFile fields file) := by
  have hblank : (Value.text path).isBlank = false := by
    simpa [Value.isBlank] using hne
  simp [withFile, hpath, hblank, htext, hread]

theorem withFile_of_ne_mapping (htext : find path = some text) {value : Value}
    (hload : load text = .ok value) (hmapping : ∀ file, value ≠ .mapping file) :
    withFile load find fields = .ok fields :=
  withFile_of_present hpath hne htext (readFile_of_ne_mapping hload hmapping)

/-- The merged fields still name the file, so it can be merged again. -/
theorem withFile_mergeFile (hfields : IsMapping fields) (htext : find path = some text)
    {file : List (Name × Value)} (hfile : IsMapping file)
    (hload : load text = .ok (.mapping file)) :
    withFile load find (mergeFile fields file) = .ok (mergeFile fields file) := by
  have hpath' : Keyed.get? (.text "config_path") (mergeFile fields file) = some (.text path) := by
    rw [get?_mergeFile hfile.nodup, hpath, settle?_text]
  rw [withFile_of_present hpath' hne htext (readFile_of_mapping hload),
    mergeFile_mergeFile hfields hfile]

end

/-- What is given counts more than the file: the merge settles every name by what is given for it
and what the file says, whatever the order of the names in the file and however often it is merged.
Without a file, or with one that is empty or no mapping, the fields stay as they were given. -/
theorem given_over_file {load : String → Except LoadError Value} (hload : IsLoader load)
    {fields : List (Name × Value)} (hfields : IsMapping fields) :
    (∀ file, IsMapping file →
      IsMapping (mergeFile fields file) ∧
      (∀ name, Settles (Keyed.get? name fields) (Keyed.get? name file)
        (Keyed.get? name (mergeFile fields file))) ∧
      (∀ other, file.Perm other → ∀ name,
        Keyed.get? name (mergeFile fields other) = Keyed.get? name (mergeFile fields file)) ∧
      (∀ other, IsMapping other →
        (∀ name, Alike (Keyed.get? name file) (Keyed.get? name other)) →
        ∀ name, Alike (Keyed.get? name (mergeFile fields file))
          (Keyed.get? name (mergeFile fields other))) ∧
      mergeFile (mergeFile fields file) file = mergeFile fields file) ∧
    ∀ find path, Keyed.get? (.text "config_path") fields = some (.text path) → path ≠ "" →
      (find path = none → withFile load find fields = .ok fields) ∧
      (find path = some "" → withFile load find fields = .ok fields) ∧
      ∀ text value, find path = some text → load text = .ok value →
        (∀ file, value = .mapping file →
          IsMapping file ∧ withFile load find fields = .ok (mergeFile fields file) ∧
            withFile load find (mergeFile fields file) = .ok (mergeFile fields file)) ∧
        ((∀ file, value ≠ .mapping file) → withFile load find fields = .ok fields) := by
  have hgiven : ∀ name value, Keyed.get? name fields = some value → value.HasDistinctNames :=
    fun name value hget => hfields.get? hget
  refine ⟨?_, ?_⟩
  · intro file hfile
    refine ⟨isMapping_mergeFile hfields hfile, ?_, ?_, ?_, mergeFile_mergeFile hfields hfile⟩
    · intro name
      rw [get?_mergeFile hfile.nodup]
      exact settles_settle? _ (hgiven name)
    · intro other hperm name
      have hother : (Keyed.keys other).Nodup := (hperm.map Prod.fst).nodup_iff.mp hfile.nodup
      rw [get?_mergeFile hother, get?_mergeFile hfile.nodup,
        Keyed.get?_of_perm hfile.nodup hperm]
    · intro other hother halike name
      rw [get?_mergeFile hfile.nodup, get?_mergeFile hother.nodup]
      exact alike_settle? (hgiven name) (halike name)
  · intro find path hpath hne
    refine ⟨withFile_of_absent hpath hne, ?_, ?_⟩
    · intro hempty
      exact withFile_of_ne_mapping hpath hne hempty hload.empty fun _ => Value.noConfusion
    · intro text value htext hvalue
      refine ⟨?_, withFile_of_ne_mapping hpath hne htext hvalue⟩
      rintro file rfl
      have hfile := hload.distinct text file hvalue
      exact ⟨hfile, withFile_of_present hpath hne htext (readFile_of_mapping hvalue),
        withFile_mergeFile hpath hne hfields htext hfile hvalue⟩

/-- A path, a fee that is left open, and one script limit. -/
def partlyGiven : List (Name × Value) :=
  [(.text "config_path", .text "sdk.yaml"), (.text "parcel_fee", .null),
    (.text "script", .mapping [(.text "max_steps", .int 5)])]

/-- A file with a fee and two script limits, and one whose name is no text. -/
def limitsFile : String :=
  "parcel_fee: 7\nscript: \x7bmax_steps: 1, max_stack_size: 16, 2024-01-31: 3\x7d\n"

/-- The loader as far as this file, a list and the empty text go. -/
def loadKnown (text : String) : Except LoadError Value :=
  if text = "" then .ok .null
  else if text = "[1, 2]" then .ok (.list [.int 1, .int 2])
  else if text = limitsFile then
    .ok (.mapping [(.text "parcel_fee", .int 7),
      (.text "script", .mapping [(.text "max_steps", .int 1), (.text "max_stack_size", .int 16),
        (.other "2024-01-31", .int 3)])])
  else .error (.broken "unknown")

theorem isLoader_loadKnown : IsLoader loadKnown := by
  refine ⟨rfl, fun text fields hload => ?_⟩
  simp only [loadKnown] at hload
  split at hload
  · cases hload
  split at hload
  · cases hload
  split at hload
  · cases hload
    refine ⟨by decide, fun name value hmem => ?_⟩
    simp only [List.mem_cons, Prod.mk.injEq, List.not_mem_nil, or_false] at hmem
    rcases hmem with ⟨-, rfl⟩ | ⟨-, rfl⟩
    · exact Value.hasDistinctNames_of_ne fun _ => Value.noConfusion
    · exact Value.hasDistinctNames_mapping.mpr (by decide)
  · cases hload

theorem given_over_file_limits :
    IsLoader loadKnown ∧ IsMapping partlyGiven ∧
      withFile loadKnown (fun _ => some limitsFile) partlyGiven =
        .ok [(.text "config_path", .text "sdk.yaml"), (.text "parcel_fee", .int 7),
          (.text "script", .mapping [(.text "max_steps", .int 5), (.text "max_stack_size", .int 16),
            (.other "2024-01-31", .int 3)])] ∧
      withFile loadKnown (fun _ => some "[1, 2]") partlyGiven = .ok partlyGiven ∧
      withFile loadKnown (fun _ => some "") partlyGiven = .ok partlyGiven ∧
      withFile loadKnown (fun _ => none) partlyGiven = .ok partlyGiven := by
  have hmapping : IsMapping partlyGiven := by
    refine ⟨by decide, fun name value hmem => ?_⟩
    simp only [partlyGiven, List.mem_cons, Prod.mk.injEq, List.not_mem_nil, or_false] at hmem
    rcases hmem with ⟨-, rfl⟩ | ⟨-, rfl⟩ | ⟨-, rfl⟩
    · exact Value.hasDistinctNames_of_ne fun _ => Value.noConfusion
    · exact Value.hasDistinctNames_of_ne fun _ => Value.noConfusion
    · exact Value.hasDistinctNames_mapping.mpr (by decide)
  have hfind : ∀ find, _ := fun find =>
    (given_over_file isLoader_loadKnown hmapping).2 find "sdk.yaml" rfl (by decide)
  obtain ⟨-, -, hpresent⟩ := hfind fun _ => some limitsFile
  obtain ⟨-, hempty, -⟩ := hfind fun _ => some ""
  obtain ⟨-, -, hlist⟩ := hfind fun _ => some "[1, 2]"
  obtain ⟨habsent, -⟩ := hfind fun _ => none
  obtain ⟨-, hmerged, -⟩ := (hpresent limitsFile _ rfl rfl).1 _ rfl
  exact ⟨isLoader_loadKnown, hmapping, hmerged,
    (hlist "[1, 2]" _ rfl rfl).2 fun _ => Value.noConfusion, hempty rfl, habsent rfl⟩

end ShardLedger.Settings
