import ShardLedger.Settings.Issue
import ShardLedger.Text.Numeral

/-!
# Values of settings

The fields of settings take texts and whole numbers.  A number may also be given as a
truth value, as a floating-point number without a fraction, or as text.  The text of a
number may have blanks around it, a sign, zeros in front, single underscores between
its digits, and a point with nothing but zeros behind it.
-/

namespace ShardLedger.Settings

/-- A byte string as text. -/
def utf8? (b : Bytes) : Option String :=
  String.fromUTF8? ⟨b.toArray⟩

/-- Read a text. -/
def textValue : Value → Except Problem String
  | .text s => .ok s
  | .bytes b =>
    match utf8? b with
    | some s => .ok s
    | none => .error .brokenText
  | _ => .error .notText

/-- The longest numeral that is read, its minus sign included. -/
def sizeLimit : Nat := 4300

/-- The digits of a whole number without superfluous zeros in front. -/
def plainDigits? (cs : List Char) : Option (List Char) :=
  if cs ≠ [] ∧ cs.all Char.isDigit ∧ (cs.length = 1 ∨ cs.head? ≠ some '0') then some cs else none

/-- A sign and what is behind it. -/
def splitMinus : List Char → Bool × List Char
  | '-' :: rest => (true, rest)
  | rest => (false, rest)

/-- The whole number that a plain numeral spells. -/
def plainNumber? (cs : List Char) : Option Int := do
  let (negative, digits) := splitMinus cs
  let n : Int := (← plainDigits? digits).foldl (fun n c => n * 10 + (c.toNat - 48)) 0
  return if negative then -n else n

/-- Whether a text starts with a numeral that is too long to be read, whatever comes behind it. -/
def startsTooLong (cs : List Char) : Bool :=
  let (negative, body) := splitMinus cs
  let digits := body.takeWhile Char.isDigit
  digits.head? != some '0' && sizeLimit < digits.length + (if negative then 1 else 0)

/-- The rest of a numeral behind zeros and underscores, in front of a digit or a minus sign, or with
one zero left in front of a point; `last` is the character before. -/
def dropZeros (last : Char) : List Char → Option (List Char)
  | [] => some [last]
  | c :: rest =>
    if c = '0' ∨ c = '_' then dropZeros c rest
    else if c.isDigit ∨ c = '-' then some (c :: rest)
    else if c = '.' then some (last :: c :: rest)
    else none

/-- A numeral without zeros in front. -/
def withoutZeros? : List Char → Option (List Char)
  | '0' :: rest => dropZeros '0' rest
  | c :: rest => if c.isDigit then some (c :: rest) else none
  | [] => none

/-- A numeral without a point that has zeros behind it and nothing else. -/
def withoutFraction (cs : List Char) : List Char :=
  match cs.dropWhile (· ≠ '.') with
  | '.' :: zero :: rest =>
    if (zero :: rest).all (· = '0') then cs.takeWhile (· ≠ '.') else cs
  | _ => cs

/-- Whether two underscores follow each other. -/
def hasDoubleUnderscore : List Char → Bool
  | '_' :: '_' :: _ => true
  | _ :: rest => hasDoubleUnderscore rest
  | [] => false

/-- A numeral without underscores, if they are single and inside. -/
def withoutUnderscores (cs : List Char) : List Char :=
  if cs.head? = some '_' ∨ cs.getLast? = some '_' ∨ hasDoubleUnderscore cs then cs
  else cs.filter (· ≠ '_')

/-- A numeral brought into its plain form. -/
def cleaned? (cs : List Char) : Option (List Char) := do
  let (minus, body) := match Text.Numeral.trim cs with
    | '-' :: rest => (['-'], rest)
    | '+' :: rest => ([], rest)
    | rest => ([], rest)
  return minus ++ withoutUnderscores (withoutFraction (← withoutZeros? body))

/-- The whole number that a text spells. -/
def ofText (s : String) : Except Problem Int :=
  let cs := s.toList
  if startsTooLong cs then .error .tooLarge
  else
    match plainNumber? cs with
    | some n => .ok n
    | none =>
      match cleaned? cs with
      | none => .error .notNumeral
      | some plain =>
        match plainNumber? plain with
        | some n => if startsTooLong plain then .error .notNumeral else .ok n
        | none => .error .notNumeral

/-- Whether bytes hold half of a surrogate pair, which can be spelled as text but is none. -/
def holdsHalfPair : Bytes → Bool
  | 0xed :: b :: rest => (0xa0 ≤ b && b < 0xc0) || holdsHalfPair (b :: rest)
  | _ :: rest => holdsHalfPair rest
  | [] => false

/-- Read a whole number. -/
def wholeNumber : Value → Except Problem Int
  | .int n => .ok n
  | .bool b => .ok (if b then 1 else 0)
  | .text s => ofText s
  | .bytes b =>
    match utf8? b with
    | some s => ofText s
    | none => .error (if holdsHalfPair b then .brokenText else .notNumeral)
  | .real (.infinite _) | .real .nan => .error .infinite
  | .real x =>
    match x.toInt? with
    | none => .error .fraction
    | some n => if -0x8000000000000000 < n ∧ n < 0x8000000000000000 then .ok n else .error .tooLarge
  | _ => .error .notNumber

/-- Read a whole number from zero up. -/
def naturalNumber (value : Value) : Except Problem Nat := do
  let n ← wholeNumber value
  if n < 0 then .error .negative else return n.toNat

/-- Read a whole number above zero. -/
def positiveNumber (value : Value) : Except Problem { n : Nat // 0 < n } := do
  let n ← wholeNumber value
  if h : 0 < n then return ⟨n.toNat, by omega⟩ else .error .notPositive

end ShardLedger.Settings
