import ShardLedger.Settings.Unchecked
import ShardLedger.Text.LowerCase

/-!
# Settings from the environment

A setting may be given in a variable of the environment that is named after it, behind
a common front.  Case does not matter in names; of two variables with the same name,
the later one counts.  The script limits have a variable each, and one variable holds
all of them as JSON text.
-/

namespace ShardLedger.Settings

/-- The variables of an environment by name. -/
abbrev Environment := List (String × String)

/-- The names of the script limits. -/
def limitNames : List String := ["max_script_length", "max_steps", "max_stack_size"]

/-- What the name of every variable starts with. -/
def variableFront : String := "codechain_"

/-- What stands in front of the name of a script limit. -/
def scriptFront : String := variableFront ++ "script__"

/-- The variables with their names in lower case, each name once. -/
def distinctVariables (environment : Environment) : Environment :=
  environment.foldl (fun vars (name, value) => Keyed.put (Text.lower name) value vars) []

/-- The fields of the given names that have a variable behind a front. -/
def fieldsOf (front : String) (names : List String) (vars : Environment) : List (String × Value) :=
  names.filterMap fun name => (Keyed.get? (front ++ name) vars).map fun value => (name, .text value)

/-- The script limits that have a variable. -/
def limitFields (environment : Environment) : List (String × Value) :=
  fieldsOf scriptFront limitNames (distinctVariables environment)

/-- A name cut at the first double underscore. -/
def cutName (front : List Char) : List Char → List Char × Option (List Char)
  | [] => (front.reverse, none)
  | '_' :: '_' :: rest => (front.reverse, some rest)
  | c :: rest => cutName (c :: front) rest

/-- Put a value under a name inside the script settings; the part of the name behind a double
underscore belongs to a mapping of its own. -/
def putNested (name : List Char) (value : String) (fields : List (String × Value)) :
    List (String × Value) :=
  match cutName [] name with
  | (name, none) => Keyed.put (String.ofList name) (.text value) fields
  | (name, some inner) =>
    match Keyed.get? (String.ofList name) fields with
    | some (.text _) => fields
    | _ =>
      Keyed.put (String.ofList name) (.mapping [(.text (String.ofList inner), .text value)]) fields

/-- The script settings that have variables of their own, whatever their names. -/
def nestedFields (vars : Environment) : List (String × Value) :=
  vars.foldl (fun fields (name, value) =>
    let cs := name.toList
    let front := scriptFront.toList
    if front.isPrefixOf cs then putNested (cs.drop front.length) value fields else fields) []

end ShardLedger.Settings
