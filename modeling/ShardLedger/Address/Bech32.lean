import ShardLedger.Bytes.Basic

/-!
# Checksummed text

Bytes become text through an alphabet of thirty-two characters, five bits each, and
six further characters hold a checksum over them and over the text in front of them.
The checksum is a remainder of polynomials over the field of thirty-two elements,
kept in thirty bits.
-/

namespace ShardLedger.Bech32

/-- The characters for the words from zero to thirty-one. -/
def alphabet : List Char :=
  "qpzry9x8gf2tvdw0s3jn54khce6mua7l".toList

/-- The character of a word. -/
def character (word : Nat) : Char :=
  alphabet.getD word 'q'

/-- The word of a character. -/
def word? (c : Char) : Option Nat :=
  alphabet.idxOf? c

/-- The last `width` binary digits of a number, most significant first. -/
def bits : Nat → Nat → List Bool
  | 0, _ => []
  | width + 1, n => bits width (n / 2) ++ [n % 2 == 1]

/-- The number that binary digits stand for. -/
def number (digits : List Bool) : Nat :=
  digits.foldl (fun n d => 2 * n + d.toNat) 0

/-- Cut a list into pieces of `size`; the last piece may be shorter. -/
def pieces {α : Type} (size : Nat) (xs : List α) : List (List α) :=
  if size = 0 ∨ xs = [] then [] else xs.take size :: pieces size (xs.drop size)
termination_by xs.length
decreasing_by
  rename_i more
  have := List.length_pos_iff.mpr fun empty => more (.inr empty)
  have : size ≠ 0 := fun none => more (.inl none)
  simp only [List.length_drop]
  omega

/-- Fill up a piece of binary digits with zeros at the end. -/
def fill (size : Nat) (digits : List Bool) : List Bool :=
  digits ++ List.replicate (size - digits.length) false

/-- The five-bit words of a byte string; zero bits fill the last one. -/
def toWords (b : Bytes) : List Nat :=
  (pieces 5 (b.flatMap fun x => bits 8 x.toNat)).map fun piece => number (fill 5 piece)

/-- The byte string of five-bit words; fewer than five bits may be left over, and they must be
zero. -/
def ofWords? (words : List Nat) : Option Bytes :=
  let digits := words.flatMap (bits 5)
  let whole := digits.length / 8 * 8
  let rest := digits.drop whole
  if rest.length < 5 ∧ rest.all (!·) then
    some ((pieces 8 (digits.take whole)).map fun piece => (number piece).toUInt8)
  else none

/-- What each of the five bits that leave the remainder adds to it. -/
def generators : List (BitVec 30) :=
  [0x3b6a57b2#30, 0x26508e6d#30, 0x1ea119fa#30, 0x3d4233dd#30, 0x2a1462b3#30]

/-- The sum of the generators for the bits that leave a remainder. -/
def feedback (remainder : BitVec 30) : BitVec 30 :=
  generators.zipIdx.foldl
    (fun sum (generator, i) => if remainder.getLsbD (25 + i) then sum ^^^ generator else sum) 0

/-- Shift a value into a remainder. -/
def shiftIn (remainder value : BitVec 30) : BitVec 30 :=
  (remainder <<< 5) ^^^ value ^^^ feedback remainder

/-- The remainder of a sequence of values. -/
def remainder (values : List Nat) : BitVec 30 :=
  values.foldl (fun r v => shiftIn r (BitVec.ofNat 30 v)) 1

/-- The values that stand for the text in front: the high bits of its characters, zero, and their
low bits. -/
def expand (front : List Char) : List Nat :=
  front.map (fun c => c.toNat / 32) ++ 0 :: front.map (fun c => c.toNat % 32)

/-- The number of words in a checksum. -/
def checksumLength : Nat := 6

/-- The six words of a remainder, most significant first. -/
def checksumWords (r : BitVec 30) : List Nat :=
  [25, 20, 15, 10, 5, 0].map fun shift => (r.toNat >>> shift) % 32

/-- The checksum over words and the text in front of them. -/
def checksum (front : List Char) (words : List Nat) : List Nat :=
  checksumWords (remainder (expand front ++ words ++ List.replicate checksumLength 0) ^^^ 1)

/-- Whether words end in their checksum. -/
def isChecked (front : List Char) (words : List Nat) : Bool :=
  remainder (expand front ++ words) = 1

end ShardLedger.Bech32
