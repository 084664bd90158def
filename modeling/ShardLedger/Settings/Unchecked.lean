import ShardLedger.Document.Basic
import ShardLedger.Keyed

/-!
# Unchecked values

What stands for a setting before it has been checked.  A file may hold more than a document does:
values of further kinds, such as dates, and mappings whose names are not texts.
-/

namespace ShardLedger.Settings

/-- A name in a mapping.  Equal names are one name: truth values and numbers with a point that are
whole are written as whole numbers, and files have a single name for what is not a number. -/
inductive Name where
  | null
  | int (value : Int)
  | real (value : Binary64)
  | text (value : String)
  | bytes (value : Bytes)
  /-- A value of a kind that no document has, as it is shown. -/
  | other (shown : String)
deriving DecidableEq

/-- A value whose shape has not been checked. -/
inductive Value where
  | null
  | bool (value : Bool)
  | int (value : Int)
  | real (value : Binary64)
  | text (value : String)
  | bytes (value : Bytes)
  /-- A value of a kind that no document has, as it is shown. -/
  | other (shown : String)
  | list (items : List Value)
  | mapping (fields : List (Name × Value))
deriving Inhabited

namespace Value

mutual

/-- A document as a value. -/
def ofDatum : Datum → Value
  | .null => null
  | .bool b => bool b
  | .int n => int n
  | .real x => real x
  | .text s => text s
  | .bytes b => bytes b
  | .list items => list (ofItems items)
  | .object fields => mapping (ofFields fields)

/-- The items of a list as values. -/
def ofItems : List Datum → List Value
  | [] => []
  | d :: rest => ofDatum d :: ofItems rest

/-- The fields of an object as those of a mapping. -/
def ofFields : List (String × Datum) → List (Name × Value)
  | [] => []
  | (name, d) :: rest => (.text name, ofDatum d) :: ofFields rest

end

/-- Whether a value is empty or zero. -/
def isBlank : Value → Bool
  | null => true
  | bool b => !b
  | int n => n = 0
  | real x => x.toInt? = some 0
  | text s => s.isEmpty
  | bytes b => b.isEmpty
  | other _ => false
  | list items => items.isEmpty
  | mapping fields => fields.isEmpty

end Value

/-- Fields under the names that their texts are. -/
def underTexts (fields : List (String × Value)) : List (Name × Value) :=
  fields.map fun (name, value) => (.text name, value)

/-- The fields whose names are texts. -/
def textFields (fields : List (Name × Value)) : List (String × Value) :=
  fields.filterMap fun (name, value) =>
    match name with
    | .text name => some (name, value)
    | _ => none

/-- The names that are no texts. -/
def oddNames (fields : List (Name × Value)) : List Name :=
  (Keyed.keys fields).filter fun name =>
    match name with
    | .text _ => false
    | _ => true

end ShardLedger.Settings
