import ShardLedger.Number.Binary64
import ShardLedger.Text.Numeral
import ShardLedger.Text.Quoted

/-!
# Documents

A document is what a client hands over before anything has been checked: a JSON
value, in which a byte string may also occur.  Objects keep the order of their
fields.  A text is made of characters; one with half of a surrogate pair in it, which
has no UTF-8 bytes, is no text here but a byte string.  A few parts of the ledger's own
objects, such as the free-form metadata of a mint, stay documents for good.
-/

namespace ShardLedger

/-- A value whose shape has not been checked. -/
inductive Datum where
  | null
  | bool (value : Bool)
  | int (value : Int)
  | real (value : Binary64)
  | text (value : String)
  | bytes (value : Bytes)
  | list (items : List Datum)
  | object (fields : List (String × Datum))
deriving Inhabited

namespace Datum

mutual

/-- Whether two documents are the same. -/
def same : Datum → Datum → Bool
  | null, null => true
  | bool a, bool b => a == b
  | int a, int b => a == b
  | real a, real b => a == b
  | text a, text b => a == b
  | bytes a, bytes b => a == b
  | list a, list b => sameItems a b
  | object a, object b => sameFields a b
  | _, _ => false

/-- Whether two lists of documents are the same. -/
def sameItems : List Datum → List Datum → Bool
  | [], [] => true
  | a :: as, b :: bs => same a b && sameItems as bs
  | _, _ => false

/-- Whether two lists of fields are the same. -/
def sameFields : List (String × Datum) → List (String × Datum) → Bool
  | [], [] => true
  | (k, a) :: as, (l, b) :: bs => k == l && same a b && sameFields as bs
  | _, _ => false

end

mutual

theorem same_iff (a b : Datum) : same a b = true ↔ a = b := by
  cases a <;> cases b <;> simp [same]
  · exact sameItems_iff _ _
  · exact sameFields_iff _ _

theorem sameItems_iff (as bs : List Datum) : sameItems as bs = true ↔ as = bs := by
  cases as <;> cases bs <;> simp [sameItems]
  rw [same_iff, sameItems_iff]

theorem sameFields_iff (as bs : List (String × Datum)) :
    sameFields as bs = true ↔ as = bs := by
  cases as with
  | nil => cases bs <;> simp [sameFields]
  | cons a as =>
    cases bs with
    | nil => simp [sameFields]
    | cons b bs =>
      obtain ⟨k, a⟩ := a
      obtain ⟨l, b⟩ := b
      simp only [sameFields, Bool.and_eq_true, beq_iff_eq, List.cons.injEq, Prod.mk.injEq]
      rw [same_iff, sameFields_iff]

end

instance : DecidableEq Datum := fun a b =>
  decidable_of_iff (same a b = true) (same_iff a b)

/-- The name of the kind of value that a document is. -/
def kind : Datum → String
  | null => "NoneType"
  | bool _ => "bool"
  | int _ => "int"
  | real _ => "float"
  | text _ => "str"
  | bytes _ => "bytes"
  | list _ => "list"
  | object _ => "dict"

mutual

/-- A document as messages repeat it: text in quotes, lists and objects in brackets. -/
def describe : Datum → String
  | null => "None"
  | bool value => if value then "True" else "False"
  | int value => toString value
  | real value => value.toText
  | text value => Text.quoted value
  | bytes value => Text.quotedBytes value
  | list items => "[" ++ describeItems items ++ "]"
  | object fields => "\x7b" ++ describeFields fields ++ "\x7d"

/-- The items of a list, with commas between them. -/
def describeItems : List Datum → String
  | [] => ""
  | [a] => describe a
  | a :: b :: rest => describe a ++ ", " ++ describeItems (b :: rest)

/-- The fields of an object, with commas between them. -/
def describeFields : List (String × Datum) → String
  | [] => ""
  | [(k, a)] => Text.quoted k ++ ": " ++ describe a
  | (k, a) :: b :: rest =>
    Text.quoted k ++ ": " ++ describe a ++ ", " ++ describeFields (b :: rest)

end

/-- A document as messages repeat it, but text without its quotes. -/
def plain : Datum → String
  | text value => value
  | other => other.describe

mutual

/-- Whether every number in a document is short enough to be written. -/
def isWritable : Datum → Bool
  | int value => Text.Numeral.isWritable value
  | list items => areWritable items
  | object fields => fieldsWritable fields
  | _ => true

/-- Whether every number in a list of documents is short enough to be written. -/
def areWritable : List Datum → Bool
  | [] => true
  | a :: rest => isWritable a && areWritable rest

/-- Whether every number in a list of fields is short enough to be written. -/
def fieldsWritable : List (String × Datum) → Bool
  | [] => true
  | (_, a) :: rest => isWritable a && fieldsWritable rest

end

/-- A byte string as the list of its bytes. -/
def byteList (b : Bytes) : Datum :=
  list (b.map fun x => int x.toNat)

/-- Byte strings as a list of the lists of their bytes. -/
def byteLists (parameters : List Bytes) : Datum :=
  list (parameters.map byteList)

/-- A byte string as hexadecimal text. -/
def hex (b : Bytes) : Datum :=
  text (Hex.shown b)

end Datum

end ShardLedger
