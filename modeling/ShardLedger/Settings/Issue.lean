import ShardLedger.Settings.Unchecked

/-!
# Issues with settings

Settings are checked as a whole: every field that is wrong and every field that does not
belong there is reported, with its place.
-/

namespace ShardLedger

/-- What is wrong with a field. -/
inductive Problem where
  /-- Not a text. -/
  | notText
  /-- Bytes that spell no text. -/
  | brokenText
  /-- A text that is no network id. -/
  | notNetwork
  /-- Neither a number nor the text of one. -/
  | notNumber
  /-- A text that is not the text of a whole number. -/
  | notNumeral
  /-- A numeral of too many digits, or a number that is too large for its kind. -/
  | tooLarge
  /-- A number with a fraction. -/
  | fraction
  /-- A number that is not finite. -/
  | infinite
  /-- A number that must be above zero. -/
  | notPositive
  /-- A number that must not be below zero. -/
  | negative
  /-- Not an object. -/
  | notObject
  /-- A field that no settings have. -/
  | unknownField
  /-- A field whose name is no text. -/
  | namelessField
  /-- A file with a value that cannot be read. -/
  | noValue
deriving DecidableEq

/-- The code that a problem is reported by. -/
def Problem.code : Problem → String
  | notText => "string_type"
  | brokenText => "string_unicode"
  | notNetwork | noValue => "value_error"
  | notNumber => "int_type"
  | notNumeral => "int_parsing"
  | tooLarge => "int_parsing_size"
  | fraction => "int_from_float"
  | infinite => "finite_number"
  | notPositive => "greater_than"
  | negative => "greater_than_equal"
  | notObject => "model_type"
  | unknownField => "extra_forbidden"
  | namelessField => "invalid_key"

/-- A problem and the names that lead to its field. -/
structure Issue where
  problem : Problem
  path : List String
deriving DecidableEq

namespace Issue

/-- The place of an issue as it is reported. -/
def place (issue : Issue) : String :=
  String.intercalate "." issue.path

/-- The same issue inside of a field. -/
def within (name : String) (issue : Issue) : Issue :=
  { issue with path := name :: issue.path }

end Issue

/-- The result of a check: a value, or everything that is wrong. -/
abbrev Checked (α : Type) := Except (List Issue) α

namespace Checked

variable {α β : Type}

/-- Two checks, of which both report what is wrong. -/
def both : Checked α → Checked β → Checked (α × β)
  | .ok a, .ok b => .ok (a, b)
  | .ok _, .error later => .error later
  | .error first, .ok _ => .error first
  | .error first, .error later => .error (first ++ later)

/-- The check of a single field. -/
def ofField (name : String) : Except Problem α → Checked α
  | .ok a => .ok a
  | .error problem => .error [⟨problem, [name]⟩]

/-- A check of what is inside of a field. -/
def within (name : String) : Checked α → Checked α
  | .ok a => .ok a
  | .error issues => .error (issues.map (Issue.within name))

/-- Check that an object has no fields but the known ones. -/
def noFurther (known : List String) (fields : List (String × Settings.Value)) : Checked Unit :=
  match (Keyed.keys fields).filter fun name => !known.contains name with
  | [] => .ok ()
  | unknown => .error (unknown.map fun name => ⟨.unknownField, [name]⟩)

/-- Report names that are no texts. -/
def noNames : List Settings.Name → Checked Unit
  | [] => .ok ()
  | names => .error (names.map fun name => ⟨.namelessField, [placeOf name]⟩)
where
  /-- A name as part of a place. -/
  placeOf : Settings.Name → String
    | .null => Datum.null.describe
    | .int n => toString n
    | .real x => x.toText
    | .text s => s
    | .bytes b => Text.quotedBytes b
    | .other shown => shown

end Checked

end ShardLedger
