import ShardLedger.Proofs.Script.Decoding

/-!
# The grammar of scripts

A script spells instructions, one behind the other.  Whatever bytes are given, they begin
with some spelled instructions and either end there or go on with bytes that no
instruction begins with.  Reading follows this division, so it accepts exactly the spelled
scripts, and in any other script it finds the flaw that stands behind the last instruction.
-/

namespace ShardLedger.Script

theorem Plain.ofCode?_eq_some_iff {op : Plain} {b : UInt8} :
    Plain.ofCode? b = some op ↔ op.code = b := by
  constructor
  · intro hfound
    simpa using List.find?_some hfound
  · rintro rfl
    exact op.ofCode?_code

theorem Unary.ofCode?_eq_some_iff {op : Unary} {b : UInt8} :
    Unary.ofCode? b = some op ↔ op.code = b := by
  constructor
  · intro hfound
    simpa using List.find?_some hfound
  · rintro rfl
    exact op.ofCode?_code

theorem Plain.ofCode?_eq_none_iff {b : UInt8} :
    Plain.ofCode? b = none ↔ ∀ op : Plain, op.code ≠ b := by
  rw [Option.eq_none_iff_forall_ne_some]
  exact forall_congr' fun op => not_congr Plain.ofCode?_eq_some_iff

theorem Unary.ofCode?_eq_none_iff {b : UInt8} :
    Unary.ofCode? b = none ↔ ∀ op : Unary, op.code ≠ b := by
  rw [Option.eq_none_iff_forall_ne_some]
  exact forall_congr' fun op => not_congr Unary.ofCode?_eq_some_iff

/-! ## The front of a script -/

/-- The instructions spell the script, and each of them can be spelled. -/
def Spells (program : List Instruction) (script : Bytes) : Prop :=
  (∀ instruction ∈ program, instruction.IsSpellable) ∧
    program.flatMap Instruction.spell = script

/-- At an offset of a script stand bytes that begin with no instruction, for this reason. -/
inductive Flawed (offset : Nat) : Bytes → Flaw → Prop
  | unknownCode {code : UInt8} (rest : Bytes) (hplain : ∀ op : Plain, op.code ≠ code)
      (hunary : ∀ op : Unary, op.code ≠ code) (hpush : code ≠ pushBytesCode) :
      Flawed offset (code :: rest) (.unknownCode code offset)
  | missingOperand (op : Unary) : Flawed offset [op.code] (.missingOperand op)
  | missingLength : Flawed offset [pushBytesCode] .missingLength
  | missingData (length : UInt8) (data : Bytes) (hshort : data.length < length.toNat) :
      Flawed offset (pushBytesCode :: length :: data) (.missingData length.toNat data.length)

theorem spell_pushBytes_take {length : UInt8} {data : Bytes} (hdata : length.toNat ≤ data.length) :
    (Instruction.pushBytes (data.take length.toNat)).IsSpellable ∧
      pushBytesCode :: length :: data =
        (Instruction.pushBytes (data.take length.toNat)).spell ++ data.drop length.toNat := by
  have hlength : (data.take length.toNat).length = length.toNat := List.length_take_of_le hdata
  constructor
  · rw [Instruction.IsSpellable, hlength]
    exact length.toNat_lt
  · have hbyte : (data.take length.toNat).length.toUInt8 = length := by
      rw [hlength]
      exact length.ofNat_toNat
    rw [Instruction.spell, hbyte, List.cons_append, List.cons_append, List.take_append_drop]

/-- Bytes begin with an instruction, or there is a flaw that says why they do not. -/
theorem exists_spell_or_flawed (offset : Nat) (code : UInt8) (rest : Bytes) :
    (∃ (instruction : Instruction) (later : Bytes), instruction.IsSpellable ∧
      code :: rest = instruction.spell ++ later) ∨
      ∃ flaw, Flawed offset (code :: rest) flaw := by
  by_cases hplain : ∃ op : Plain, op.code = code
  · obtain ⟨op, rfl⟩ := hplain
    exact Or.inl ⟨.plain op, rest, trivial, rfl⟩
  by_cases hunary : ∃ op : Unary, op.code = code
  · obtain ⟨op, rfl⟩ := hunary
    cases rest with
    | nil => exact Or.inr ⟨_, .missingOperand op⟩
    | cons operand later => exact Or.inl ⟨.unary op operand, later, trivial, rfl⟩
  by_cases hpush : code = pushBytesCode
  · subst hpush
    cases rest with
    | nil => exact Or.inr ⟨_, .missingLength⟩
    | cons length data =>
        rcases Nat.lt_or_ge data.length length.toNat with hshort | hdata
        · exact Or.inr ⟨_, .missingData length data hshort⟩
        · obtain ⟨hspell, hfront⟩ := spell_pushBytes_take hdata
          exact Or.inl ⟨_, _, hspell, hfront⟩
  · exact Or.inr ⟨_, .unknownCode rest (not_exists.mp hplain) (not_exists.mp hunary) hpush⟩

theorem Instruction.length_spell_pos (instruction : Instruction) : 0 < instruction.spell.length := by
  cases instruction <;> exact Nat.succ_pos _

/-- Every script divides into spelled instructions and, unless it ends there, a flaw. -/
theorem exists_spells_append (offset : Nat) (script : Bytes) :
    ∃ program front tail, Spells program front ∧ script = front ++ tail ∧
      (tail = [] ∨ ∃ flaw, Flawed (offset + front.length) tail flaw) := by
  -- The induction is on the length: the first instruction takes several bytes off the front.
  induction hlength : script.length using Nat.strongRecOn generalizing offset script with
  | ind length ih =>
      cases script with
      | nil => exact ⟨[], [], [], ⟨by simp, rfl⟩, rfl, Or.inl rfl⟩
      | cons code rest =>
          rcases exists_spell_or_flawed offset code rest with
            ⟨instruction, later, hspell, hfront⟩ | hflaw
          · have hshorter : later.length < length := by
              have hpos := instruction.length_spell_pos
              rw [← hlength, hfront, List.length_append]
              omega
            obtain ⟨program, front, tail, ⟨hprogram, hflat⟩, hlater, htail⟩ :=
              ih later.length hshorter (offset + instruction.spell.length) later rfl
            refine ⟨instruction :: program, instruction.spell ++ front, tail, ⟨?_, ?_⟩, ?_, ?_⟩
            · exact List.forall_mem_cons.mpr ⟨hspell, hprogram⟩
            · rw [List.flatMap_cons, hflat]
            · rw [hfront, hlater, List.append_assoc]
            · rw [List.length_append, ← Nat.add_assoc]
              exact htail
          · exact ⟨[], [], code :: rest, ⟨by simp, rfl⟩, rfl, Or.inr hflaw⟩

/-! ## Reading -/

theorem Flawed.decodeFrom_eq {offset : Nat} {tail : Bytes} {flaw : Flaw}
    (hflaw : Flawed offset tail flaw) : decodeFrom offset tail = .error flaw := by
  cases hflaw with
  | @unknownCode code rest hplain hunary hpush =>
      rw [← Plain.ofCode?_eq_none_iff] at hplain
      rw [← Unary.ofCode?_eq_none_iff] at hunary
      cases rest with
      | nil => simp [decodeFrom, flawAtEnd, hplain, hunary, hpush]
      | cons operand rest => simp [decodeFrom, hplain, hunary, hpush]
  | missingOperand op =>
      simp [decodeFrom, flawAtEnd, Plain.ofCode?_unaryCode]
  | missingLength =>
      simp [decodeFrom, flawAtEnd, Plain.ofCode?_pushBytesCode, Unary.ofCode?_pushBytesCode]
  | missingData length data hshort =>
      have htake : data.take length.toNat = data := List.take_of_length_le (Nat.le_of_lt hshort)
      simp [decodeFrom, Plain.ofCode?_pushBytesCode, Unary.ofCode?_pushBytesCode, htake, hshort]

theorem Spells.decodeFrom_append {program : List Instruction} {front : Bytes}
    (hspells : Spells program front) (offset : Nat) (tail : Bytes) :
    decodeFrom offset (front ++ tail) =
      (decodeFrom (offset + front.length) tail).map (program ++ ·) := by
  obtain ⟨hspell, rfl⟩ := hspells
  exact decodeFrom_flatMap_spell_append hspell offset tail

theorem Spells.decode_eq {program : List Instruction} {script : Bytes}
    (hspells : Spells program script) : decode script = .ok program := by
  obtain ⟨hspell, rfl⟩ := hspells
  exact decode_flatMap_spell hspell

theorem decode_append_of_flawed {program : List Instruction} {front tail : Bytes} {flaw : Flaw}
    (hspells : Spells program front) (hflaw : Flawed front.length tail flaw) :
    decode (front ++ tail) = .error flaw := by
  rw [decode, hspells.decodeFrom_append, Nat.zero_add, hflaw.decodeFrom_eq]
  rfl

theorem spells_or_flawed (script : Bytes) :
    (∃ program, Spells program script) ∨
      ∃ program front tail flaw, Spells program front ∧ script = front ++ tail ∧
        Flawed front.length tail flaw := by
  obtain ⟨program, front, tail, hspells, rfl, htail⟩ := exists_spells_append 0 script
  rw [Nat.zero_add] at htail
  rcases htail with rfl | ⟨flaw, hflaw⟩
  · rw [List.append_nil]
    exact Or.inl ⟨program, hspells⟩
  · exact Or.inr ⟨program, front, tail, flaw, hspells, rfl, hflaw⟩

theorem decode_eq_ok_iff {script : Bytes} {program : List Instruction} :
    decode script = .ok program ↔ Spells program script := by
  constructor
  · intro hread
    rcases spells_or_flawed script with ⟨program', hspells⟩ | ⟨_, _, _, _, hspells, rfl, hflaw⟩
    · rw [hspells.decode_eq] at hread
      cases hread
      exact hspells
    · rw [decode_append_of_flawed hspells hflaw] at hread
      cases hread
  · exact Spells.decode_eq

theorem decode_eq_error_iff {script : Bytes} {flaw : Flaw} :
    decode script = .error flaw ↔
      ∃ program front tail, Spells program front ∧ script = front ++ tail ∧
        Flawed front.length tail flaw := by
  constructor
  · intro hread
    rcases spells_or_flawed script with
      ⟨program, hspells⟩ | ⟨program, front, tail, flaw', hspells, rfl, hflaw⟩
    · rw [hspells.decode_eq] at hread
      cases hread
    · rw [decode_append_of_flawed hspells hflaw] at hread
      cases hread
      exact ⟨program, front, tail, hspells, rfl, hflaw⟩
  · rintro ⟨program, front, tail, hspells, rfl, hflaw⟩
    exact decode_append_of_flawed hspells hflaw

theorem Spells.append {first second : List Instruction} {a b : Bytes} (hfirst : Spells first a)
    (hsecond : Spells second b) : Spells (first ++ second) (a ++ b) := by
  obtain ⟨hfirst, rfl⟩ := hfirst
  obtain ⟨hsecond, rfl⟩ := hsecond
  exact ⟨List.forall_mem_append.mpr ⟨hfirst, hsecond⟩, List.flatMap_append⟩

/-- Behind a script that is accepted, a further one is accepted exactly when it is by itself, and
its instructions follow those of the first. -/
theorem decode_append_eq_ok_iff {a b : Bytes} {first program : List Instruction}
    (hfirst : decode a = .ok first) :
    decode (a ++ b) = .ok program ↔
      ∃ second, decode b = .ok second ∧ program = first ++ second := by
  rw [decode_eq_ok_iff] at hfirst
  constructor
  · intro hboth
    -- Behind the first script a flaw stands at another offset than in the second alone.
    obtain ⟨second, front, tail, hsecond, rfl, htail⟩ := exists_spells_append a.length b
    rcases htail with rfl | ⟨flaw, hflaw⟩
    · rw [List.append_nil] at hboth ⊢
      rw [(hfirst.append hsecond).decode_eq] at hboth
      cases hboth
      exact ⟨second, hsecond.decode_eq, rfl⟩
    · rw [← List.length_append] at hflaw
      rw [← List.append_assoc, decode_append_of_flawed (hfirst.append hsecond) hflaw] at hboth
      cases hboth
  · rintro ⟨second, hsecond, rfl⟩
    rw [decode_eq_ok_iff] at hsecond
    exact (hfirst.append hsecond).decode_eq

theorem Spells.unique {program program' : List Instruction} {script : Bytes}
    (hspells : Spells program script) (hspells' : Spells program' script) : program = program' :=
  Except.ok.inj (hspells.decode_eq.symm.trans hspells'.decode_eq)

/-! ## Acceptance -/

/-- Reading accepts exactly the scripts that instructions spell, and returns the only instructions
that spell them; it refuses all others, for the flaw behind the instructions they begin with; and a
script is read in front of another one as it is by itself. -/
theorem decode_accepts_spelled (script : Bytes) :
    (∀ program, decode script = .ok program ↔ Spells program script) ∧
    (∀ program program', Spells program script → Spells program' script → program = program') ∧
    ((¬∃ program, Spells program script) ↔ ∃ flaw, decode script = .error flaw) ∧
    (∀ flaw, decode script = .error flaw ↔ ∃ program front tail, Spells program front ∧
      script = front ++ tail ∧ Flawed front.length tail flaw) ∧
    ∀ first later, decode script = .ok first →
      ((∃ program, decode (script ++ later) = .ok program) ↔
        ∃ second, decode later = .ok second) ∧
      ∀ program, decode (script ++ later) = .ok program ↔
        ∃ second, decode later = .ok second ∧ program = first ++ second := by
  refine ⟨fun program => decode_eq_ok_iff, fun _ _ => Spells.unique, ?_,
    fun flaw => decode_eq_error_iff, ?_⟩
  · simp only [← decode_eq_ok_iff]
    cases decode script with
    | ok program => simp
    | error flaw => simp
  · intro first later hfirst
    refine ⟨⟨?_, ?_⟩, fun program => decode_append_eq_ok_iff hfirst⟩
    · rintro ⟨program, hboth⟩
      obtain ⟨second, hsecond, -⟩ := (decode_append_eq_ok_iff hfirst).mp hboth
      exact ⟨second, hsecond⟩
    · rintro ⟨second, hsecond⟩
      exact ⟨_, (decode_append_eq_ok_iff hfirst).mpr ⟨second, hsecond, rfl⟩⟩

/-- A script that pushes the bytes of other instructions, and then jumps. -/
def pushedCode : Bytes :=
  [0x32, 2, 0x03, 0x30, 0x22, 0xff]

/-- The pushed bytes are not read as instructions, and a script that lacks an operand behind it is
refused as it is by itself. -/
theorem decode_accepts_spelled_pushedCode :
    decode pushedCode = .ok [.pushBytes [0x03, 0x30], .unary .jumpIfFalse 0xff] ∧
      decode [0x30] = .error (.missingOperand .push) ∧
      ¬∃ program, decode (pushedCode ++ [0x30]) = .ok program := by
  obtain ⟨haccepts, -, -, -, hbehind⟩ := decode_accepts_spelled pushedCode
  obtain ⟨-, -, -, hrefuses, -⟩ := decode_accepts_spelled [0x30]
  have hspells : Spells [.pushBytes [0x03, 0x30], .unary .jumpIfFalse 0xff] pushedCode :=
    ⟨by simp [Instruction.IsSpellable], rfl⟩
  have hfirst := (haccepts _).mpr hspells
  have hsecond : decode [0x30] = .error (.missingOperand .push) :=
    (hrefuses _).mpr ⟨[], [], [0x30], ⟨by simp, rfl⟩, rfl, .missingOperand .push⟩
  refine ⟨hfirst, hsecond, fun hboth => ?_⟩
  obtain ⟨second, haccepted⟩ := (hbehind _ _ hfirst).1.mp hboth
  rw [hsecond] at haccepted
  cases haccepted

end ShardLedger.Script
