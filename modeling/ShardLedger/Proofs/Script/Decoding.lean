import ShardLedger.Script.Instruction

/-!
# Reading spelled instructions

Reading a script undoes spelling it: an instruction at the front is read as itself,
and the rest of the script is read behind it.
-/

namespace ShardLedger.Script

@[simp]
theorem Plain.ofCode?_code (op : Plain) : Plain.ofCode? op.code = some op := by
  cases op <;> rfl

@[simp]
theorem Unary.ofCode?_code (op : Unary) : Unary.ofCode? op.code = some op := by
  cases op <;> rfl

theorem Plain.ofCode?_unaryCode (op : Unary) : Plain.ofCode? op.code = none := by
  cases op <;> rfl

theorem Plain.ofCode?_pushBytesCode : Plain.ofCode? pushBytesCode = none := rfl

theorem Unary.ofCode?_pushBytesCode : Unary.ofCode? pushBytesCode = none := rfl

/-- Reading starts with the instruction that is spelled in front. -/
theorem decodeFrom_spell_append {instruction : Instruction} (hspell : instruction.IsSpellable)
    (offset : Nat) (rest : Bytes) :
    decodeFrom offset (instruction.spell ++ rest) =
      (decodeFrom (offset + instruction.spell.length) rest).map (instruction :: ·) := by
  cases instruction with
  | plain op =>
      simp only [Instruction.spell, List.singleton_append, List.length_singleton]
      rw [decodeFrom.eq_def]
      simp only [Plain.ofCode?_code]
      cases decodeFrom (offset + 1) rest <;> rfl
  | unary op operand =>
      simp only [Instruction.spell, List.cons_append, List.nil_append, List.length_cons,
        List.length_nil]
      rw [decodeFrom.eq_def]
      simp only [Plain.ofCode?_unaryCode, Unary.ofCode?_code]
      cases decodeFrom (offset + 2) rest <;> rfl
  | pushBytes data =>
      have hlength : data.length.toUInt8.toNat = data.length := Nat.mod_eq_of_lt hspell
      have hsize : offset + (pushBytesCode :: data.length.toUInt8 :: data).length =
          offset + 2 + data.length := by
        simp only [List.length_cons]
        omega
      simp only [Instruction.spell]
      rw [hsize, List.cons_append, List.cons_append, decodeFrom.eq_def]
      simp only [Plain.ofCode?_pushBytesCode, Unary.ofCode?_pushBytesCode, if_true, hlength,
        List.take_left', List.drop_left', Nat.lt_irrefl, if_false]
      cases decodeFrom (offset + 2 + data.length) rest <;> rfl

/-- Spelled instructions in front of a script are read in front of what the rest is read as. -/
theorem decodeFrom_flatMap_spell_append {program : List Instruction}
    (hspell : ∀ instruction ∈ program, instruction.IsSpellable) (offset : Nat) (rest : Bytes) :
    decodeFrom offset (program.flatMap Instruction.spell ++ rest) =
      (decodeFrom (offset + (program.flatMap Instruction.spell).length) rest).map
        (program ++ ·) := by
  induction program generalizing offset with
  | nil =>
      rw [List.flatMap_nil, List.nil_append, List.length_nil, Nat.add_zero]
      cases decodeFrom offset rest <;> rfl
  | cons instruction program ih =>
      have hfirst := hspell _ List.mem_cons_self
      have hlater := ih fun i hi => hspell i (List.mem_cons_of_mem _ hi)
      rw [List.flatMap_cons, List.append_assoc, decodeFrom_spell_append hfirst, hlater,
        List.length_append, Nat.add_assoc]
      cases decodeFrom _ rest <;> rfl

/-- A script that spells instructions is read as these instructions. -/
theorem decode_flatMap_spell {program : List Instruction}
    (hspell : ∀ instruction ∈ program, instruction.IsSpellable) :
    decode (program.flatMap Instruction.spell) = .ok program := by
  have hread := decodeFrom_flatMap_spell_append hspell 0 []
  rw [List.append_nil, decodeFrom] at hread
  rw [decode, hread]
  exact congrArg Except.ok (List.append_nil program)

end ShardLedger.Script
