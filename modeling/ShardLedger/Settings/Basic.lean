import ShardLedger.Address.Network
import ShardLedger.Document.Json
import ShardLedger.Script.Limits
import ShardLedger.Settings.Environment
import ShardLedger.Settings.Value

/-!
# Settings

Settings come from four places.  What is given directly counts more than what the
environment says, that counts more than the file that `config_path` names, and defaults
fill in what is left.  The script limits are merged field by field.  Case matters in the
names of a file's fields, but neither in what is given directly nor in the environment.
-/

namespace ShardLedger

/-- The settings of a client. -/
structure Settings where
  networkId : NetworkId
  /-- The fee of parcels that name none. -/
  parcelFee : Nat
  configPath : String
  script : Script.Limits

/-- Why the text of a file cannot be loaded. -/
inductive Settings.LoadError where
  /-- A value in it cannot be read. -/
  | badValue
  /-- Anything else, by the name of its kind. -/
  | broken (kind : String)

/-- Why settings cannot be used. -/
inductive Settings.Failure where
  /-- Fields are wrong. -/
  | invalid (issues : List Issue)
  /-- The variable with all script limits is no JSON text. -/
  | brokenVariable
  /-- The path of the file is no text. -/
  | notPath
  /-- The file cannot be loaded, for a reason of some kind. -/
  | brokenFile (kind : String)
  /-- The name of a script limit is no text. -/
  | namelessLimit

namespace Settings

/-- Where settings come from. -/
structure Sources where
  /-- What is given directly. -/
  given : List (String × Value) := []
  environment : Environment := []
  /-- The text of the file with a given path, if it exists. -/
  file : String → Option String := fun _ => none
  /-- The value that the text of a file stands for. -/
  load : String → Except LoadError Value := fun _ => .ok .null

/-- Fields, with later ones in place of earlier ones of the same name. -/
def replaceAll {κ : Type} [DecidableEq κ] (fields later : List (κ × Value)) : List (κ × Value) :=
  later.foldl (fun all (name, value) => Keyed.put name value all) fields

/-- A field's value laid over another one; two mappings are merged. -/
def layOver (below : Option Value) (above : Value) : Value :=
  match below, above with
  | some (.mapping fields), .mapping later => .mapping (replaceAll fields later)
  | _, _ => above

/-- Fields laid over others. -/
def overlay (below above : List (String × Value)) : List (String × Value) :=
  above.foldl
    (fun all (name, value) => Keyed.put name (layOver (Keyed.get? name all) value) all) below

/-- Fields that are given directly, under the names of the fields that they stand for: case does not
matter, and the first one counts.  Fields that stand for none come last. -/
def underNames (names : List String) (given : List (String × Value)) : List (String × Value) :=
  names.filterMap (fun name =>
    (given.find? fun (key, _) => Text.lower key = name).map fun (_, value) => (name, value))
  ++ given.filter fun (key, _) => !names.contains (Text.lower key)

/-- Merge one field of a file under fields that count more; `null` counts less than the file. -/
def mergeField (fields : List (Name × Value)) (name : Name) (value : Value) :
    List (Name × Value) :=
  match Keyed.get? name fields, value with
  | none, _ => Keyed.put name value fields
  | some .null, _ => Keyed.put name value fields
  | some (.mapping own), .mapping more => Keyed.put name (.mapping (replaceAll more own)) fields
  | some _, _ => fields

/-- Merge the fields of a file under fields that count more. -/
def mergeFile (fields file : List (Name × Value)) : List (Name × Value) :=
  file.foldl (fun all (name, value) => mergeField all name value) fields

/-- The name of the script limit that a name stands for when case does not matter, or the name
itself. -/
def limitName (name : String) : String :=
  if limitNames.contains (Text.lower name) then Text.lower name else name

/-- The fields that the environment gives. -/
def environmentFields (environment : Environment) : Except Failure (List (String × Value)) := do
  let vars := distinctVariables environment
  let simple := fieldsOf variableFront ["network_id", "parcel_fee", "config_path"] vars
  let nested := nestedFields vars
  let script : Option Value ← match Keyed.get? (variableFront ++ "script") vars with
    | none => pure (if nested.isEmpty then none else some (.mapping (underTexts nested)))
    | some text =>
      match Json.parse? text with
      | none => .error .brokenVariable
      | some .null => pure none
      | some (.object fields) =>
        let fields := overlay (textFields (Value.ofFields fields)) nested
        let fields := fields.map fun (name, value) => (limitName name, value)
        pure (some (.mapping (underTexts (replaceAll [] fields))))
      | some other => pure (some (.ofDatum other))
  return simple ++ (script.map fun value => ("script", value)).toList

/-- The names of the fields of settings. -/
def fieldNames : List String := ["network_id", "parcel_fee", "config_path", "script"]

/-- The fields of a file: none if it is no mapping.  A value in it that cannot be read is an issue
with the settings as a whole. -/
def readFile (load : String → Except LoadError Value) (text : String) :
    Except Failure (List (Name × Value)) :=
  match load text with
  | .ok (.mapping fields) => .ok fields
  | .ok _ => .ok []
  | .error .badValue => .error (.invalid [⟨.noValue, []⟩])
  | .error (.broken kind) => .error (.brokenFile kind)

/-- Merge the file that `config_path` names under the other fields, if it names one that exists. -/
def withFile (load : String → Except LoadError Value) (file : String → Option String)
    (fields : List (Name × Value)) : Except Failure (List (Name × Value)) := do
  let path := (Keyed.get? (.text "config_path") fields).getD (.text "")
  if path.isBlank then return fields
  else
    match path with
    | .text path =>
      match file path with
      | some text => return mergeFile fields (← readFile load text)
      | none => return fields
    | _ => .error .notPath

/-- The fields from all places. -/
def mergedFields (sources : Sources) : Except Failure (List (Name × Value)) := do
  let given := underNames fieldNames sources.given
  let fields := overlay (← environmentFields sources.environment) given
  withFile sources.load sources.file (underTexts fields)

/-- A script limit among fields. -/
def limit (name : String) (standard : { n : Nat // 0 < n }) (fields : List (String × Value)) :
    Checked { n : Nat // 0 < n } :=
  match Keyed.get? name fields with
  | none => .ok standard
  | some value => .ofField name (positiveNumber value)

/-- Check the fields of script limits. -/
def checkLimits (fields : List (String × Value)) : Checked Script.Limits :=
  let standard := Script.Limits.standard
  let length := limit "max_script_length" ⟨standard.maxLength, standard.maxLength_pos⟩ fields
  let steps := limit "max_steps" ⟨standard.maxSteps, standard.maxSteps_pos⟩ fields
  let stack := limit "max_stack_size" ⟨standard.maxStack, standard.maxStack_pos⟩ fields
  (length.both (steps.both (stack.both (.noFurther limitNames fields)))).map
    fun (length, steps, stack, _) =>
      ⟨length, steps, stack, length.property, steps.property, stack.property⟩

/-- The script limits from fields and from the environment below them. -/
def limits (environment : Environment) (fields : List (String × Value)) : Checked Script.Limits :=
  checkLimits (overlay (limitFields environment) (underNames limitNames fields))

/-- Check a network id. -/
def networkValue (value : Value) : Except Problem NetworkId := do
  match NetworkId.ofText? (← textValue value) with
  | some network => return network
  | none => .error .notNetwork

/-- A field among fields, or its default. -/
def fieldOr {α : Type} (name : String) (standard : α) (check : Value → Except Problem α)
    (fields : List (String × Value)) : Checked α :=
  match Keyed.get? name fields with
  | none => .ok standard
  | some value => .ofField name (check value)

/-- The script limits inside the `script` field. -/
def scriptField (environment : Environment) : Value → Except Failure (Checked Script.Limits)
  | .mapping fields =>
    if oddNames fields ≠ [] then .error .namelessLimit
    else .ok ((limits environment (textFields fields)).within "script")
  | _ => .ok (.error [⟨.notObject, ["script"]⟩])

/-- Check all fields, with the script limits at hand. -/
def checkWith (script : Checked Script.Limits) (fields : List (String × Value)) (odd : List Name) :
    Checked Settings :=
  let network := fieldOr "network_id" NetworkId.standard networkValue fields
  let fee := fieldOr "parcel_fee" 10 naturalNumber fields
  let path := fieldOr "config_path" "" textValue fields
  let further := (Checked.noFurther fieldNames fields).both (.noNames odd)
  (network.both (fee.both (path.both (script.both further)))).map
    fun (network, fee, path, script, _) => ⟨network, fee, path, script⟩

/-- Check all fields, and names that are no texts.  Without a `script` field the limits come from
the environment alone, and what is wrong with them then is reported by itself. -/
def check (environment : Environment) (fields : List (String × Value)) (odd : List Name) :
    Except Failure (Checked Settings) := do
  match Keyed.get? "script" fields with
  | some value => return checkWith (← scriptField environment value) fields odd
  | none =>
    match limits environment [] with
    | .ok script => return checkWith (.ok script) fields odd
    | .error issues => return .error issues

/-- The settings that the sources give. -/
def ofSources (sources : Sources) : Except Failure Settings := do
  let fields ← mergedFields sources
  match ← check sources.environment (textFields fields) (oddNames fields) with
  | .ok settings => return settings
  | .error issues => .error (.invalid issues)

/-- The script limits that the sources give when they are wanted alone. -/
def limitsOfSources (sources : Sources) : Except Failure Script.Limits :=
  match limits sources.environment sources.given with
  | .ok limits => .ok limits
  | .error issues => .error (.invalid issues)

end Settings

end ShardLedger
