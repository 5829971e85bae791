/-
# Asm86.Proofs.Encoding.RoundTrip -- decoding undoes planning

The bytes of a planned instruction, whatever follows them, decode to its override and to the
instruction itself (`decode_plan`), up to what machine code does not tell apart.  `canonical`
names one instruction of each class: flags and sizes of immediates are forgotten, and so are
the two spellings of a left shift, a count of one, and the order of operands that are
exchanged or tested.
-/
import Asm86.Proofs.Bytes
import Asm86.Proofs.Encoding.Decoder
import Asm86.Proofs.Encoding.Fields

namespace Asm86.Machine

set_option autoImplicit false

/-! ## What machine code does not tell apart -/

/-- The immediate as a field of the given size holds it. -/
def Immediate.held (i : Immediate) : Width → Immediate
  | .byte => .ofValue i.low.toUInt16.toInt16 .byte
  | _ => .ofValue i.value .word

def Memory.plain (m : Memory) : Memory := { m with symbolic := false }

/-- The size of a lone immediate: ports, vectors and short distances are bytes. -/
def Group.immediateWidth : Group → Width
  | .input _ | .output _ | .int | .short _ => .byte
  | _ => .word

/-- The operands with flags and sizes of immediates forgotten. -/
def Operands.plain (group : Group) : Operands → Operands
  | .mem m => .mem m.plain
  | .imm i => .imm (i.held group.immediateWidth)
  | .regMem r m => .regMem r m.plain
  | .memReg m r => .memReg m.plain r
  | .regImm r i => .regImm r (i.held r.width)
  | .memImm m i => .memImm m.plain (i.held m.width)
  | .sregMem s m => .sregMem s m.plain
  | .memSreg m s => .memSreg m.plain s
  | .immImm segment offset => .immImm (segment.held .word) (offset.held .word)
  | other => other

/-- A shift: there is one left shift, and a count of one is not written. -/
def canonicalShift (op : Operation) (o : Operands) : Instruction :=
  let op := if op = .sal then .shl else op
  match o with
  | .regImm r count =>
      if count.value = 1 ∧ count.symbolic = false then ⟨op, .reg r⟩
      else ⟨op, .regImm r (count.held r.width)⟩
  | .memImm m count =>
      if count.value = 1 ∧ count.symbolic = false then ⟨op, .mem m.plain⟩
      else ⟨op, .memImm m.plain (count.held m.width)⟩
  | o => ⟨op, o.plain op.group⟩

/-- An exchange of registers: AX comes first among words, and with itself does nothing. -/
def canonicalExchange (a b : Register) : Instruction :=
  if a.width = .word ∧ b.width = .word ∧ b.id = 0 then
    if a.id = 0 then ⟨.nop, .none⟩ else ⟨.xchg, .regReg b a⟩
  else ⟨.xchg, .regReg a b⟩

def canonicalIn (op : Operation) : Group → Operands → Instruction
  | .shift _, o => canonicalShift op o
  | .xchg, .regReg a b => canonicalExchange a b
  | .xchg, .regMem r m => ⟨op, .memReg m.plain r⟩
  | .test, .regMem r m => ⟨op, .memReg m.plain r⟩
  | group, o => ⟨op, o.plain group⟩

/-- One instruction of each class that has the same machine code. -/
def canonical (i : Instruction) : Instruction := canonicalIn i.op i.op.group i.operands

/-! ## Operands that have an encoding -/

def Register.WellFormed (r : Register) : Prop := r.id ≤ 7

/-- The fields have two and three bits, and the displacement fits the mode. -/
structure Memory.WellFormed (m : Memory) : Prop where
  mode : m.mode ≤ 2
  rm : m.rm ≤ 7
  byte : m.mode = 1 → -128 ≤ m.disp.toInt ∧ m.disp.toInt ≤ 127
  absent : m.mode = 0 → m.rm ≠ 6 → m.disp = 0

theorem Memory.WellFormed.modes {m : Memory} (wellFormed : m.WellFormed) :
    m.mode = 0 ∨ m.mode = 1 ∨ m.mode = 2 := by
  have bound := UInt8.le_iff_toNat_le.1 wellFormed.mode
  simp only [← UInt8.toNat_inj]
  revert bound
  show m.mode.toNat ≤ 2 → m.mode.toNat = 0 ∨ m.mode.toNat = 1 ∨ m.mode.toNat = 2
  omega

def Operands.WellFormed : Operands → Prop
  | .reg r => r.WellFormed
  | .mem m => m.WellFormed
  | .regReg a b => a.WellFormed ∧ b.WellFormed
  | .regMem r m => r.WellFormed ∧ m.WellFormed
  | .memReg m r => m.WellFormed ∧ r.WellFormed
  | .regImm r _ => r.WellFormed
  | .memImm m _ => m.WellFormed
  | .sregReg _ r => r.WellFormed
  | .sregMem _ m => m.WellFormed
  | .regSreg r _ => r.WellFormed
  | .memSreg m _ => m.WellFormed
  | .none | .imm _ | .sreg _ | .immImm .. => True

end Asm86.Machine

namespace Asm86.Encoding

open Asm86.Machine

set_option autoImplicit false

/-! ## The ModRM byte -/

theorem bits_modrm (mode : Fin 4) (reg rm : Fin 8) :
    let b := modrm (UInt8.ofNat mode) (UInt8.ofNat reg) (UInt8.ofNat rm)
    b >>> 6 = UInt8.ofNat mode ∧ middleBits b = UInt8.ofNat reg ∧ b &&& 7 = UInt8.ofNat rm := by
  revert mode reg rm
  decide +kernel

theorem fields_modrm {mode reg rm : UInt8} (two : mode ≤ 3) (three : reg ≤ 7) (three' : rm ≤ 7) :
    modrm mode reg rm >>> 6 = mode ∧ middleBits (modrm mode reg rm) = reg ∧
      modrm mode reg rm &&& 7 = rm := by
  have inBounds : ∀ {x y : UInt8}, x ≤ y → x.toNat < y.toNat + 1 :=
    fun below => Nat.lt_succ_of_le (UInt8.le_iff_toNat_le.1 below)
  have bits := bits_modrm ⟨mode.toNat, inBounds two⟩ ⟨reg.toNat, inBounds three⟩
    ⟨rm.toNat, inBounds three'⟩
  simpa using bits

theorem readRm_reg {reg rm : UInt8} (three : reg ≤ 7) (three' : rm ≤ 7) (rest : List UInt8) :
    readRm (modrm 3 reg rm :: rest) = some (reg, .reg rm, rest) := by
  obtain ⟨mode, middle, low⟩ := fields_modrm (by decide : (3 : UInt8) ≤ 3) three three'
  simp [readRm, mode, middle, low]

/-- A number that fits a signed byte survives it. -/
theorem toInt16_low {d : Int16} (low : -128 ≤ d.toInt) (high : d.toInt ≤ 127) :
    d.toUInt16.toUInt8.toInt8.toInt16 = d := by
  have cut : d.toUInt16.toUInt8.toInt8.toInt = d.toInt.bmod 256 := by
    show d.toUInt16.toUInt8.toBitVec.toInt = d.toUInt16.toBitVec.toInt.bmod 256
    rw [UInt16.toBitVec_toUInt8, BitVec.toInt_setWidth, BitVec.toInt_eq_toNat_bmod,
      Int.bmod_bmod_of_dvd (by decide)]
  apply Int16.toInt_inj.1
  rw [Int8.toInt_toInt16, cut, Int.bmod_eq_of_le] <;> omega

theorem readRm_mem {reg : UInt8} {m : Memory} (three : reg ≤ 7) (wellFormed : m.WellFormed)
    (rest : List UInt8) :
    readRm (modrm m.mode reg m.rm :: ((Field.ofDisp m).bytes ++ rest)) =
      some (reg, .mem m.mode m.rm m.disp, rest) := by
  have two : m.mode ≤ 3 := UInt8.le_trans wellFormed.mode (by decide)
  obtain ⟨high, middle, low⟩ := fields_modrm two three wellFormed.rm
  generalize modrm m.mode reg m.rm = b at high middle low
  rcases wellFormed.modes with mode | mode | mode
  · by_cases direct : m.rm = 6
    · have field : Field.ofDisp m = .word m.disp.toUInt16 := by
        simp [Field.ofDisp, Memory.dispWidth?, mode, direct]
      simp [readRm, high, middle, low, mode, direct, field, Field.bytes, Bytes.ofWord]
    · have field : Field.ofDisp m = .none := by
        simp [Field.ofDisp, Memory.dispWidth?, mode, direct]
      simp [readRm, high, middle, low, mode, direct, field, Field.bytes,
        wellFormed.absent mode direct]
  · have field : Field.ofDisp m = .byte m.disp.toUInt16.toUInt8 := by
      simp [Field.ofDisp, Memory.dispWidth?, mode]
    obtain ⟨least, most⟩ := wellFormed.byte mode
    simp [readRm, high, middle, low, mode, field, Field.bytes, toInt16_low least most]
  · have field : Field.ofDisp m = .word m.disp.toUInt16 := by
      simp [Field.ofDisp, Memory.dispWidth?, mode]
    simp [readRm, high, middle, low, mode, field, Field.bytes, Bytes.ofWord]

/-! ## Operands behind an opcode -/

/-- The layouts that name an operand with a ModRM byte whose middle bits are `reg`. -/
inductive Names (opcode reg : UInt8) (imm : Field) : Rm → Layout → Prop where
  | reg {r : Register} (wellFormed : r.WellFormed) :
      Names opcode reg imm (.reg r.id) ((Layout.reg opcode reg r.id).withImm imm)
  | mem {m : Memory} (wellFormed : m.WellFormed) :
      Names opcode reg imm (.mem m.mode m.rm m.disp) ((Layout.mem opcode reg m).withImm imm)

/-- The bytes of such a layout: the ModRM byte, the displacement and the immediate. -/
theorem Names.bytes_eq {opcode reg : UInt8} {imm : Field} {operand : Rm} {layout : Layout}
    (names : Names opcode reg imm operand layout) (three : reg ≤ 7) :
    ∃ first behind, layout.bytes = opcode :: first :: behind ∧ middleBits first = reg ∧
      ∀ rest, readRm (first :: (behind ++ rest)) = some (reg, operand, imm.bytes ++ rest) := by
  cases names with
  | @reg r wellFormed =>
      refine ⟨modrm 3 reg r.id, imm.bytes, ?_, ?_, fun rest => readRm_reg three wellFormed _⟩
      · simp [Layout.bytes, Layout.withImm, Layout.reg, Field.bytes]
      · exact (fields_modrm (by decide : (3 : UInt8) ≤ 3) three wellFormed).2.1
  | @mem m wellFormed =>
      have two := UInt8.le_trans wellFormed.mode (by decide : (2 : UInt8) ≤ 3)
      refine ⟨modrm m.mode reg m.rm, (Field.ofDisp m).bytes ++ imm.bytes, ?_, ?_, fun rest => ?_⟩
      · simp [Layout.bytes, Layout.withImm, Layout.mem, Field.bytes]
      · exact (fields_modrm two three wellFormed.rm).2.1
      · rw [List.append_assoc]
        exact readRm_mem three wellFormed _

theorem Format.read_of_complete {f : Format} {reg : UInt8} {operand : Rm}
    {bytes rest : List UInt8} {result : Operands × List UInt8}
    (read : readRm bytes = some (reg, operand, rest))
    (complete : f.complete reg operand rest = some result) : f.read bytes = some result := by
  -- A format without a ModRM byte has nothing to complete.
  cases f <;> first | cases complete; done | simpa [Format.read, read] using complete

/-- An immediate is read back as its field holds it. -/
theorem readImmediate_ofImmediate (i : Immediate) (w : Width) (rest : List UInt8) :
    readImmediate w ((Field.ofImmediate i w).bytes ++ rest) = some (i.held w, rest) := by
  cases w <;>
    simp [readImmediate, readByte, readWord, Field.ofImmediate, Field.bytes, Bytes.ofWord,
      Immediate.held, Immediate.word]

theorem complete_rmImm (i : Immediate) (w : Width) (reg : UInt8) (operand : Rm)
    (rest : List UInt8) :
    (Format.rmImm w).complete reg operand ((Field.ofImmediate i w).bytes ++ rest) =
      some (operand.place w (.regImm · (i.held w)) (.memImm · (i.held w)), rest) := by
  simp [Format.complete, readImmediate_ofImmediate]

theorem complete_rmExtended {i : Immediate} (extends_ : i.signExtends = true) (reg : UInt8)
    (operand : Rm) (rest : List UInt8) :
    Format.rmExtended.complete reg operand ((Field.byte i.low).bytes ++ rest) =
      some (operand.place .word (.regImm · (i.held .word)) (.memImm · (i.held .word)), rest) := by
  have fits : -128 ≤ i.value.toInt ∧ i.value.toInt ≤ 127 := by
    simpa [Range.signed8] using (Bool.and_eq_true_iff.1 extends_).2
  have value : i.low.toInt8.toInt16 = i.value := toInt16_low fits.1 fits.2
  simp [Format.complete, readByte, Field.bytes, Immediate.held, value]

theorem read_accImm (i : Immediate) (w : Width) (rest : List UInt8) :
    (Format.accImm w).read ((Field.ofImmediate i w).bytes ++ rest) =
      some (.regImm ⟨w, 0⟩ (i.held w), rest) := by
  simp [Format.read, readImmediate_ofImmediate]

theorem readWord_ofWord (v : UInt16) (rest : List UInt8) :
    readWord ((Field.word v).bytes ++ rest) = some (v, rest) := by
  simp [readWord, Field.bytes, Bytes.ofWord]

/-- An address without registers is its displacement. -/
theorem direct_eq_plain {m : Memory} (direct : m.isDirect = true) :
    Memory.direct m.width m.disp.toUInt16 = m.plain := by
  obtain ⟨mode, rm⟩ : m.mode = 0 ∧ m.rm = 6 := by simpa [Memory.isDirect] using direct
  simp [Memory.direct, Memory.plain, mode, rm]

theorem segmentRegister?_id (s : SegReg) : segmentRegister? s.id = some s := by
  cases s <;> rfl

theorem complete_rmSreg (s : SegReg) (operand : Rm) (rest : List UInt8) :
    Format.rmSreg.complete s.id operand rest =
      some (operand.place .word (.regSreg · s) (.memSreg · s), rest) := by
  simp [Format.complete, segmentRegister?_id]

theorem complete_sregRm (s : SegReg) (operand : Rm) (rest : List UInt8) :
    Format.sregRm.complete s.id operand rest =
      some (operand.place .word (.sregReg s ·) (.sregMem s ·), rest) := by
  simp [Format.complete, segmentRegister?_id]

theorem segment_three_bits (s : SegReg) : s.id ≤ 7 := by
  cases s <;> decide

/-! ## Entries -/

/-- The bytes of the layout decode to the instruction, whatever follows. -/
def Decodes (layout : Layout) (i : Instruction) : Prop :=
  ∀ rest, decodeBody (layout.bytes ++ rest) = some (i, rest)

variable {opcode reg : UInt8} {imm : Field} {operand : Rm} {layout : Layout}
variable {op : Operation} {o : Operands} {f : Format}

theorem decodes_whole (entry : entry? opcode = whole op o) : Decodes (.op opcode) ⟨op, o⟩ := by
  intro rest
  show decodeBody (opcode :: rest) = _
  simp [decodeBody, entry, whole]

theorem decodes_operands {behind : List UInt8} (entry : entry? opcode = operands op f)
    (bytes : layout.bytes = opcode :: behind)
    (read : ∀ rest, f.read (behind ++ rest) = some (o, rest)) : Decodes layout ⟨op, o⟩ := by
  intro rest
  rw [bytes, List.cons_append]
  simp [decodeBody, entry, operands, read]

theorem decodes_immediate (entry : entry? opcode = operands op f)
    (read : ∀ rest, f.read (imm.bytes ++ rest) = some (o, rest)) :
    Decodes ((Layout.op opcode).withImm imm) ⟨op, o⟩ := by
  have bytes : ((Layout.op opcode).withImm imm).bytes = opcode :: imm.bytes := by
    simp [Layout.bytes, Layout.withImm, Layout.op, Field.bytes]
  exact decodes_operands entry bytes read

theorem decodes_rm (names : Names opcode reg imm operand layout) (three : reg ≤ 7)
    (entry : entry? opcode = operands op f)
    (complete : ∀ rest, f.complete reg operand (imm.bytes ++ rest) = some (o, rest)) :
    Decodes layout ⟨op, o⟩ := by
  obtain ⟨first, behind, bytes, -, read⟩ := names.bytes_eq three
  exact decodes_operands entry bytes fun rest => Format.read_of_complete (read rest) (complete rest)

theorem decodes_choice {table : List (Option (Operation × Format))}
    (names : Names opcode reg imm operand layout) (three : reg ≤ 7)
    (entry : entry? opcode = some (.choice table))
    (chosen : table.getD reg.toNat none = some (op, f))
    (complete : ∀ rest, f.complete reg operand (imm.bytes ++ rest) = some (o, rest)) :
    Decodes layout ⟨op, o⟩ := by
  intro rest
  obtain ⟨first, behind, bytes, middle, read⟩ := names.bytes_eq three
  have operands := Format.read_of_complete (read rest) (complete rest)
  rw [bytes, List.cons_append, List.cons_append]
  simp only [decodeBody, entry, readByte, middle, chosen, operands, Option.bind_eq_bind,
    Option.bind_some, Option.pure_def]

theorem decodes_choices {ops : List (Option Operation)}
    (names : Names opcode reg imm operand layout) (three : reg ≤ 7)
    (entry : entry? opcode = choices ops f) (chosen : ops.getD reg.toNat none = some op)
    (complete : ∀ rest, f.complete reg operand (imm.bytes ++ rest) = some (o, rest)) :
    Decodes layout ⟨op, o⟩ := by
  refine decodes_choice names three entry ?_ complete
  rw [List.getD_eq_getElem?_getD] at chosen ⊢
  rw [List.getElem?_map]
  cases found : ops[reg.toNat]? <;> simp_all

/-- The entries of an arithmetic operation. -/
structure ArithmeticEntries (op : Operation) (ext : UInt8) : Prop where
  three : ext ≤ 7
  rmReg {w : Width} : Narrow w → entry? ((ext <<< 3) ||| w.bit) = operands op (.rmReg w)
  regRm {w : Width} : Narrow w → entry? ((ext <<< 3) ||| 2 ||| w.bit) = operands op (.regRm w)
  accByte : entry? ((ext <<< 3) ||| 4) = operands op (.accImm .byte)
  accWord : entry? ((ext <<< 3) ||| 4 ||| 1) = operands op (.accImm .word)
  chosen : immediateOperations.getD ext.toNat none = some op

theorem arithmetic_entries {ext : UInt8} (group : op.group = .arith ext) :
    ArithmeticEntries op ext := by
  cases op <;> cases group <;>
    refine ⟨by decide, fun narrow => ?_, fun narrow => ?_, rfl, rfl, rfl⟩ <;>
    obtain rfl | rfl := narrow.byte_or_word <;> rfl

/-! ## Groups -/

theorem arith_decodes {ext : UInt8} (group : op.group = .arith ext) (wellFormed : o.WellFormed)
    (form : Form (.arith ext) o layout) : Decodes layout ⟨op, o.plain (.arith ext)⟩ := by
  have entries := arithmetic_entries group
  cases form with
  | @arithRegReg _ dst src same narrow =>
      obtain ⟨w, d⟩ := dst
      obtain ⟨_, s⟩ := src
      cases same
      exact decodes_rm (.reg wellFormed.1) wellFormed.2 (entries.rmReg narrow) fun _ => rfl
  | @arithRegMem _ dst m same narrow =>
      obtain ⟨w, d⟩ := dst
      cases same
      exact decodes_rm (.mem wellFormed.2) wellFormed.1 (entries.regRm narrow) fun _ => rfl
  | @arithMemReg _ m src same narrow =>
      obtain ⟨w, s⟩ := src
      cases same
      exact decodes_rm (.mem wellFormed.1) wellFormed.2 (entries.rmReg narrow) fun _ => rfl
  | @arithAccByte _ dst i byte fits acc =>
      obtain ⟨_, _⟩ := dst
      cases byte
      cases acc
      exact decodes_immediate entries.accByte (read_accImm i .byte)
  | @arithRegByte _ dst i byte fits =>
      obtain ⟨_, d⟩ := dst
      cases byte
      exact decodes_choices (.reg wellFormed) entries.three rfl entries.chosen fun _ => rfl
  | @arithRegExtended _ dst i word extends_ =>
      obtain ⟨_, d⟩ := dst
      cases word
      exact decodes_choices (.reg wellFormed) entries.three rfl entries.chosen
        (complete_rmExtended extends_ _ _)
  | @arithAccWord _ dst i word acc =>
      obtain ⟨_, _⟩ := dst
      cases word
      cases acc
      exact decodes_immediate entries.accWord (read_accImm i .word)
  | @arithRegWord _ dst i word =>
      obtain ⟨_, d⟩ := dst
      cases word
      exact decodes_choices (.reg wellFormed) entries.three rfl entries.chosen
        (complete_rmImm i .word _ _)
  | @arithMemByte _ m i byte fits =>
      obtain ⟨_, _, _, _, _⟩ := m
      cases byte
      exact decodes_choices (.mem wellFormed) entries.three rfl entries.chosen fun _ => rfl
  | @arithMemExtended _ m i word extends_ =>
      obtain ⟨_, _, _, _, _⟩ := m
      cases word
      exact decodes_choices (.mem wellFormed) entries.three rfl entries.chosen
        (complete_rmExtended extends_ _ _)
  | @arithMemWord _ m i word =>
      obtain ⟨_, _, _, _, _⟩ := m
      cases word
      exact decodes_choices (.mem wellFormed) entries.three rfl entries.chosen
        (complete_rmImm i .word _ _)

/-- What holds of the eight registers holds of every number with three bits. -/
theorem forall_three_bits {p : UInt8 → Prop} (all : ∀ id : Fin 8, p (UInt8.ofNat id)) {id : UInt8}
    (three : id ≤ 7) : p id := by
  have bound : id.toNat < 8 := Nat.lt_succ_of_le (UInt8.le_iff_toNat_le.1 three)
  simpa using all ⟨id.toNat, bound⟩

/-- The entries of a move that come for bytes and for words. -/
theorem move_entries {w : Width} (narrow : Narrow w) :
    entry? (0x88 ||| w.bit) = operands .mov (.rmReg w) ∧
      entry? (0x8A ||| w.bit) = operands .mov (.regRm w) ∧
      entry? (0xA0 ||| w.bit) = operands .mov (.accMem w) ∧
      entry? (0xA2 ||| w.bit) = operands .mov (.memAcc w) ∧
      entry? (0xC6 ||| w.bit) = onlyFirst .mov (.rmImm w) := by
  obtain rfl | rfl := narrow.byte_or_word <;> exact ⟨rfl, rfl, rfl, rfl, rfl⟩

theorem entry_move_immediate {r : Register} (narrow : Narrow r.width) (wellFormed : r.WellFormed) :
    entry? ((0xB0 : UInt8) ||| (r.width.bit <<< 3) ||| r.id) = operands .mov (.regImm r) := by
  obtain ⟨w, id⟩ := r
  obtain rfl | rfl := narrow.byte_or_word
  · exact forall_three_bits
      (p := fun id => entry? ((0xB0 : UInt8) ||| (Width.byte.bit <<< 3) ||| id) =
        operands .mov (.regImm ⟨.byte, id⟩)) (by decide) wellFormed
  · exact forall_three_bits
      (p := fun id => entry? ((0xB0 : UInt8) ||| (Width.word.bit <<< 3) ||| id) =
        operands .mov (.regImm ⟨.word, id⟩)) (by decide) wellFormed

theorem bytes_disp (opcode : UInt8) (v : UInt16) :
    Layout.bytes { Layout.op opcode with disp := .word v } = opcode :: (Field.word v).bytes := by
  simp [Layout.bytes, Layout.op, Field.bytes]

theorem mov_decodes (wellFormed : o.WellFormed) (form : Form .mov o layout) :
    Decodes layout ⟨.mov, o.plain .mov⟩ := by
  cases form with
  | @movRegReg dst src same narrow =>
      obtain ⟨w, d⟩ := dst
      obtain ⟨_, s⟩ := src
      cases same
      exact decodes_rm (.reg wellFormed.1) wellFormed.2 (move_entries narrow).1 fun _ => rfl
  | @movAccDirect dst m same narrow acc direct =>
      obtain ⟨w, d⟩ := dst
      cases same
      cases acc
      refine decodes_operands (move_entries narrow).2.2.1 (bytes_disp _ _) fun rest => ?_
      simp [Format.read, readWord_ofWord, direct_eq_plain direct, Operands.plain]
  | @movRegMem dst m same narrow =>
      obtain ⟨w, d⟩ := dst
      cases same
      exact decodes_rm (.mem wellFormed.2) wellFormed.1 (move_entries narrow).2.1 fun _ => rfl
  | @movDirectAcc m src same narrow acc direct =>
      obtain ⟨w, s⟩ := src
      cases same
      cases acc
      refine decodes_operands (move_entries narrow).2.2.2.1 (bytes_disp _ _) fun rest => ?_
      simp [Format.read, readWord_ofWord, direct_eq_plain direct, Operands.plain]
  | @movMemReg m src same narrow =>
      obtain ⟨w, s⟩ := src
      cases same
      exact decodes_rm (.mem wellFormed.1) wellFormed.2 (move_entries narrow).1 fun _ => rfl
  | @movRegImm dst i narrow fits =>
      refine decodes_immediate (entry_move_immediate narrow wellFormed) fun rest => ?_
      simp [Format.read, readImmediate_ofImmediate, Operands.plain]
  | @movMemImm m i narrow fits =>
      exact decodes_choice (.mem wellFormed) (by decide) (move_entries narrow).2.2.2.2 rfl
        (complete_rmImm i m.width _ _)
  | @movSregReg s r word =>
      obtain ⟨_, _⟩ := r
      cases word
      exact decodes_rm (.reg wellFormed) (segment_three_bits s) rfl (complete_sregRm s _)
  | @movSregMem s m word =>
      obtain ⟨_, _, _, _, _⟩ := m
      cases word
      exact decodes_rm (.mem wellFormed) (segment_three_bits s) rfl (complete_sregRm s _)
  | @movRegSreg r s word =>
      obtain ⟨_, _⟩ := r
      cases word
      exact decodes_rm (.reg wellFormed) (segment_three_bits s) rfl (complete_rmSreg s _)
  | @movMemSreg m s word =>
      obtain ⟨_, _, _, _, _⟩ := m
      cases word
      exact decodes_rm (.mem wellFormed) (segment_three_bits s) rfl (complete_rmSreg s _)

theorem push_decodes (wellFormed : o.WellFormed) (form : Form .push o layout) :
    Decodes layout ⟨.push, o.plain .push⟩ := by
  cases form with
  | @pushReg r word =>
      obtain ⟨_, id⟩ := r
      cases word
      exact decodes_whole <| forall_three_bits
        (p := fun id => entry? (0x50 ||| id) = whole .push (.reg ⟨.word, id⟩)) (by decide) wellFormed
  | @pushSreg s =>
      refine decodes_whole ?_
      cases s <;> rfl
  | @pushMem m word =>
      obtain ⟨_, _, _, _, _⟩ := m
      cases word
      exact decodes_choice (.mem wellFormed) (by decide) rfl rfl fun _ => rfl

theorem pop_decodes (wellFormed : o.WellFormed) (form : Form .pop o layout) :
    Decodes layout ⟨.pop, o.plain .pop⟩ := by
  cases form with
  | @popReg r word =>
      obtain ⟨_, id⟩ := r
      cases word
      exact decodes_whole <| forall_three_bits
        (p := fun id => entry? (0x58 ||| id) = whole .pop (.reg ⟨.word, id⟩)) (by decide) wellFormed
  | @popSreg s notCode =>
      refine decodes_whole ?_
      cases s with
      | cs => exact absurd rfl notCode
      | _ => rfl
  | @popMem m word =>
      obtain ⟨_, _, _, _, _⟩ := m
      cases word
      exact decodes_choice (.mem wellFormed) (by decide) rfl rfl fun _ => rfl

theorem canonicalExchange_comm (id : UInt8) :
    canonicalExchange ⟨.word, 0⟩ ⟨.word, id⟩ = canonicalExchange ⟨.word, id⟩ ⟨.word, 0⟩ := by
  by_cases zero : id = 0 <;> simp [canonicalExchange, zero]

theorem decodes_exchange_acc {id : UInt8} (three : id ≤ 7) :
    Decodes (.op (0x90 ||| id)) (canonicalExchange ⟨.word, id⟩ ⟨.word, 0⟩) :=
  decodes_whole <| forall_three_bits
    (p := fun id => entry? (0x90 ||| id) =
      some (.whole (canonicalExchange ⟨.word, id⟩ ⟨.word, 0⟩))) (by decide) three

theorem entry_exchange_rm {w : Width} (narrow : Narrow w) :
    entry? (0x86 ||| w.bit) = operands .xchg (.rmReg w) := by
  obtain rfl | rfl := narrow.byte_or_word <;> rfl

theorem xchg_decodes (wellFormed : o.WellFormed) (form : Form .xchg o layout) :
    Decodes layout (canonical ⟨.xchg, o⟩) := by
  cases form with
  | @xchgAccReg a b left right acc =>
      obtain ⟨_, _⟩ := a
      obtain ⟨_, id⟩ := b
      cases left
      cases right
      cases acc
      show Decodes _ (canonicalExchange ⟨.word, 0⟩ ⟨.word, id⟩)
      rw [canonicalExchange_comm]
      exact decodes_exchange_acc wellFormed.2
  | @xchgRegAcc a b left right acc =>
      obtain ⟨_, id⟩ := a
      obtain ⟨_, _⟩ := b
      cases left
      cases right
      cases acc
      exact decodes_exchange_acc wellFormed.1
  | @xchgRegReg a b same narrow plain =>
      obtain ⟨w, a⟩ := a
      obtain ⟨_, b⟩ := b
      cases same
      have unchanged : canonical ⟨.xchg, .regReg ⟨w, a⟩ ⟨w, b⟩⟩ = ⟨.xchg, .regReg ⟨w, a⟩ ⟨w, b⟩⟩ := by
        refine if_neg ?_
        rintro ⟨word, -, acc⟩
        exact (plain word).2 acc
      rw [unchanged]
      exact decodes_rm (.reg wellFormed.1) wellFormed.2 (entry_exchange_rm narrow) fun _ => rfl
  | @xchgRegMem r m same narrow =>
      obtain ⟨w, r⟩ := r
      cases same
      exact decodes_rm (.mem wellFormed.2) wellFormed.1 (entry_exchange_rm narrow) fun _ => rfl
  | @xchgMemReg m r same narrow =>
      obtain ⟨w, r⟩ := r
      cases same
      exact decodes_rm (.mem wellFormed.1) wellFormed.2 (entry_exchange_rm narrow) fun _ => rfl

theorem input_decodes {w : Width} (group : op.group = .input w) (form : Form (.input w) o layout) :
    Decodes layout ⟨op, o.plain (.input w)⟩ := by
  cases form with
  | inputImm =>
      refine decodes_immediate (f := .immByte) ?_ fun _ => rfl
      cases op <;> cases group <;> rfl
  | inputDx =>
      refine decodes_whole ?_
      cases op <;> cases group <;> rfl

theorem output_decodes {w : Width} (group : op.group = .output w)
    (form : Form (.output w) o layout) : Decodes layout ⟨op, o.plain (.output w)⟩ := by
  cases form with
  | outputImm =>
      refine decodes_immediate (f := .immByte) ?_ fun _ => rfl
      cases op <;> cases group <;> rfl
  | outputDx =>
      refine decodes_whole ?_
      cases op <;> cases group <;> rfl

theorem load_decodes {first : UInt8} {w : Width} (group : op.group = .load first w)
    (wellFormed : o.WellFormed) (form : Form (.load first w) o layout) :
    Decodes layout ⟨op, o.plain (.load first w)⟩ := by
  cases form with
  | @load _ _ r m word sized =>
      obtain ⟨_, r⟩ := r
      cases word
      cases sized
      refine decodes_rm (f := .regMem m.width) (.mem wellFormed.2) wellFormed.1 ?_ fun _ => rfl
      generalize m.width = w at group
      cases op <;> cases group <;> rfl

theorem shift_entries {w : Width} (narrow : Narrow w) :
    entry? (0xD0 ||| w.bit) = choices shiftOperations (.rm w) ∧
      entry? (0xD2 ||| w.bit) = choices shiftOperations (.rmCl w) := by
  obtain rfl | rfl := narrow.byte_or_word <;> exact ⟨rfl, rfl⟩

theorem shift_chosen {ext : UInt8} (group : op.group = .shift ext) :
    ext ≤ 7 ∧
      shiftOperations.getD ext.toNat none = some (if op = .sal then .shl else op) := by
  cases op <;> cases group <;> exact ⟨by decide, rfl⟩

theorem shift_decodes {ext : UInt8} (group : op.group = .shift ext) (wellFormed : o.WellFormed)
    (form : Form (.shift ext) o layout) : Decodes layout (canonicalShift op o) := by
  obtain ⟨three, chosen⟩ := shift_chosen group
  cases form with
  | shiftReg narrow =>
      exact decodes_choices (.reg wellFormed) three (shift_entries narrow).1 chosen fun _ => rfl
  | shiftMem narrow =>
      exact decodes_choices (.mem wellFormed) three (shift_entries narrow).1 chosen fun _ => rfl
  | shiftRegOne narrow one literal =>
      rw [canonicalShift, if_pos ⟨one, literal⟩]
      exact decodes_choices (.reg wellFormed) three (shift_entries narrow).1 chosen fun _ => rfl
  | shiftMemOne narrow one literal =>
      rw [canonicalShift, if_pos ⟨one, literal⟩]
      exact decodes_choices (.mem wellFormed) three (shift_entries narrow).1 chosen fun _ => rfl
  | shiftRegCl narrow =>
      exact decodes_choices (.reg wellFormed.1) three (shift_entries narrow).2 chosen fun _ => rfl
  | shiftMemCl narrow =>
      exact decodes_choices (.mem wellFormed.1) three (shift_entries narrow).2 chosen fun _ => rfl

theorem entry_unary {w : Width} (narrow : Narrow w) : entry? (0xF6 ||| w.bit) = unaryGroup w := by
  obtain rfl | rfl := narrow.byte_or_word <;> rfl

theorem unary_chosen {ext : UInt8} (group : op.group = .unary ext) (w : Width) :
    ext ≤ 7 ∧ ∃ table, unaryGroup w = some (.choice table) ∧
      table.getD ext.toNat none = some (op, .rm w) := by
  cases op <;> cases group <;> exact ⟨by decide, _, rfl, rfl⟩

theorem unary_decodes {ext : UInt8} (group : op.group = .unary ext) (wellFormed : o.WellFormed)
    (form : Form (.unary ext) o layout) : Decodes layout ⟨op, o.plain (.unary ext)⟩ := by
  cases form with
  | @unaryReg _ r narrow =>
      obtain ⟨three, table, members, chosen⟩ := unary_chosen group r.width
      have entry := (entry_unary narrow).trans members
      exact decodes_choice (.reg wellFormed) three entry chosen fun _ => rfl
  | @unaryMem _ m narrow =>
      obtain ⟨three, table, members, chosen⟩ := unary_chosen group m.width
      have entry := (entry_unary narrow).trans members
      exact decodes_choice (.mem wellFormed) three entry chosen fun _ => rfl

theorem incDec_chosen {ext : UInt8} {w : Width} (group : op.group = .incDec ext)
    (narrow : Narrow w) :
    ext ≤ 7 ∧ ∃ table, entry? (0xFE ||| w.bit) = some (.choice table) ∧
      table.getD ext.toNat none = some (op, .rm w) := by
  obtain rfl | rfl := narrow.byte_or_word <;>
    cases op <;> cases group <;> exact ⟨by decide, _, rfl, rfl⟩

theorem incDec_decodes {ext : UInt8} (group : op.group = .incDec ext) (wellFormed : o.WellFormed)
    (form : Form (.incDec ext) o layout) : Decodes layout ⟨op, o.plain (.incDec ext)⟩ := by
  cases form with
  | @incDecByte _ r byte =>
      obtain ⟨_, r⟩ := r
      cases byte
      have narrow : Narrow .byte := nofun
      obtain ⟨three, table, entry, chosen⟩ := incDec_chosen group narrow
      exact decodes_choice (.reg wellFormed) three entry chosen fun _ => rfl
  | @incDecWord _ r word =>
      obtain ⟨_, r⟩ := r
      cases word
      refine decodes_whole <| forall_three_bits
        (p := fun id => entry? ((0x40 : UInt8) ||| (ext <<< 3) ||| id) =
          whole op (.reg ⟨.word, id⟩)) ?_ wellFormed
      cases op <;> cases group <;> decide
  | @incDecMem _ m narrow =>
      obtain ⟨three, table, entry, chosen⟩ := incDec_chosen group narrow
      exact decodes_choice (.mem wellFormed) three entry chosen fun _ => rfl

theorem test_entries {w : Width} (narrow : Narrow w) :
    entry? (0x84 ||| w.bit) = operands .test (.rmReg w) ∧
      entry? (0xA8 ||| w.bit) = operands .test (.accImm w) := by
  obtain rfl | rfl := narrow.byte_or_word <;> exact ⟨rfl, rfl⟩

theorem test_decodes (wellFormed : o.WellFormed) (form : Form .test o layout) :
    Decodes layout (canonical ⟨.test, o⟩) := by
  cases form with
  | @testRegReg dst src same narrow =>
      obtain ⟨w, d⟩ := dst
      obtain ⟨_, s⟩ := src
      cases same
      exact decodes_rm (.reg wellFormed.1) wellFormed.2 (test_entries narrow).1 fun _ => rfl
  | @testRegMem r m same narrow =>
      obtain ⟨w, r⟩ := r
      cases same
      exact decodes_rm (.mem wellFormed.2) wellFormed.1 (test_entries narrow).1 fun _ => rfl
  | @testMemReg m r same narrow =>
      obtain ⟨w, r⟩ := r
      cases same
      exact decodes_rm (.mem wellFormed.1) wellFormed.2 (test_entries narrow).1 fun _ => rfl
  | @testAccImm r i narrow fits acc =>
      obtain ⟨w, r⟩ := r
      cases acc
      exact decodes_immediate (test_entries narrow).2 (read_accImm i w)
  | @testRegImm r i narrow fits =>
      exact decodes_choice (.reg wellFormed) (by decide) (entry_unary narrow) rfl
        (complete_rmImm i r.width _ _)
  | @testMemImm m i narrow fits =>
      exact decodes_choice (.mem wellFormed) (by decide) (entry_unary narrow) rfl
        (complete_rmImm i m.width _ _)

theorem read_immWord (i : Immediate) (rest : List UInt8) :
    Format.immWord.read ((Field.word i.word).bytes ++ rest) = some (.imm (i.held .word), rest) := by
  have read := readImmediate_ofImmediate i .word rest
  simp only [Field.ofImmediate] at read
  simp [Format.read, read]

theorem ret_decodes {first : UInt8} (group : op.group = .ret first)
    (form : Form (.ret first) o layout) : Decodes layout ⟨op, o.plain (.ret first)⟩ := by
  cases form with
  | ret =>
      refine decodes_whole ?_
      cases op <;> cases group <;> rfl
  | @retDrop _ i =>
      refine decodes_immediate ?_ (read_immWord i)
      cases op <;> cases group <;> rfl

theorem near_chosen {relative ext : UInt8} (group : op.group = .near relative ext) :
    ext ≤ 7 ∧ ∃ table, entry? 0xFF = some (.choice table) ∧
      table.getD ext.toNat none = some (op, .rm .word) := by
  cases op <;> cases group <;> exact ⟨by decide, _, rfl, rfl⟩

theorem near_decodes {relative ext : UInt8} (group : op.group = .near relative ext)
    (wellFormed : o.WellFormed) (form : Form (.near relative ext) o layout) :
    Decodes layout ⟨op, o.plain (.near relative ext)⟩ := by
  obtain ⟨three, table, entry, chosen⟩ := near_chosen group
  cases form with
  | @nearRelative _ _ i =>
      refine decodes_immediate ?_ (read_immWord i)
      cases op <;> cases group <;> rfl
  | @nearReg _ _ r word =>
      obtain ⟨_, r⟩ := r
      cases word
      exact decodes_choice (.reg wellFormed) three entry chosen fun _ => rfl
  | @nearMem _ _ m word =>
      obtain ⟨_, _, _, _, _⟩ := m
      cases word
      exact decodes_choice (.mem wellFormed) three entry chosen fun _ => rfl

theorem read_pointer (segment offset : Immediate) (rest : List UInt8) :
    Format.pointer.read
        (((Field.word offset.word).bytes ++ (Field.word segment.word).bytes) ++ rest) =
      some (.immImm (segment.held .word) (offset.held .word), rest) := by
  have readOffset :=
    readImmediate_ofImmediate offset .word ((Field.word segment.word).bytes ++ rest)
  have readSegment := readImmediate_ofImmediate segment .word rest
  simp only [Field.ofImmediate] at readOffset readSegment
  simp [Format.read, readOffset, readSegment]

theorem far_decodes {direct ext : UInt8} (group : op.group = .far direct ext)
    (wellFormed : o.WellFormed) (form : Form (.far direct ext) o layout) :
    Decodes layout ⟨op, o.plain (.far direct ext)⟩ := by
  cases form with
  | @farDirect _ _ segment offset =>
      have entry : entry? direct = operands op .pointer := by
        cases op <;> cases group <;> rfl
      refine decodes_operands entry ?_ (read_pointer segment offset)
      simp [Layout.bytes, Layout.op, Field.bytes]
  | @farMem _ _ m dword =>
      obtain ⟨_, _, _, _, _⟩ := m
      cases dword
      have three : ext ≤ 7 := by
        cases op <;> cases group <;> decide
      refine decodes_choice (f := .mem .dword) (.mem wellFormed) three rfl ?_ fun _ => rfl
      cases op <;> cases group <;> rfl

theorem int_decodes (form : Form .int o layout) : Decodes layout ⟨.int, o.plain .int⟩ := by
  cases form with
  | @breakpoint i byte three =>
      refine decodes_whole ?_
      simp only [Operands.plain, Group.immediateWidth, Immediate.held, Immediate.low, three]
      rfl
  | int => exact decodes_immediate (f := .immByte) rfl fun _ => rfl

theorem short_decodes {first : UInt8} (group : op.group = .short first)
    (form : Form (.short first) o layout) : Decodes layout ⟨op, o.plain (.short first)⟩ := by
  cases form with
  | short =>
      refine decodes_immediate (f := .immByte) ?_ fun _ => rfl
      cases op <;> cases group <;> rfl

theorem single_decodes {first : UInt8} (group : op.group = .single first)
    (form : Form (.single first) o layout) : Decodes layout ⟨op, o.plain (.single first)⟩ := by
  cases form with
  | single =>
      refine decodes_whole ?_
      cases op <;> cases group <;> rfl

theorem double_decodes {first second : UInt8} (group : op.group = .double first second)
    (form : Form (.double first second) o layout) :
    Decodes layout ⟨op, o.plain (.double first second)⟩ := by
  cases form with
  | double =>
      have entry : entry? first = operands op .ten := by
        cases op <;> cases group <;> rfl
      have ten : second = 10 := by
        cases op <;> cases group <;> rfl
      subst ten
      exact decodes_operands entry rfl fun _ => rfl

/-! ## Instructions -/

/-- Every form decodes to the instruction that it encodes. -/
theorem Form.decodes (wellFormed : o.WellFormed) (form : Form op.group o layout) :
    Decodes layout (canonical ⟨op, o⟩) := by
  show Decodes layout (canonicalIn op op.group o)
  generalize group : op.group = g at form
  cases g with
  | arith ext => exact arith_decodes group wellFormed form
  | mov =>
      obtain rfl : op = .mov := by
        cases op <;> cases group
        rfl
      exact mov_decodes wellFormed form
  | push =>
      obtain rfl : op = .push := by
        cases op <;> cases group
        rfl
      exact push_decodes wellFormed form
  | pop =>
      obtain rfl : op = .pop := by
        cases op <;> cases group
        rfl
      exact pop_decodes wellFormed form
  | xchg =>
      obtain rfl : op = .xchg := by
        cases op <;> cases group
        rfl
      exact xchg_decodes wellFormed form
  | input w => exact input_decodes group form
  | output w => exact output_decodes group form
  | load opcode w => exact load_decodes group wellFormed form
  | shift ext => exact shift_decodes group wellFormed form
  | unary ext => exact unary_decodes group wellFormed form
  | incDec ext => exact incDec_decodes group wellFormed form
  | test =>
      obtain rfl : op = .test := by
        cases op <;> cases group
        rfl
      exact test_decodes wellFormed form
  | ret opcode => exact ret_decodes group form
  | near relative ext => exact near_decodes group wellFormed form
  | far direct ext => exact far_decodes group wellFormed form
  | int =>
      obtain rfl : op = .int := by
        cases op <;> cases group
        rfl
      exact int_decodes form
  | short opcode => exact short_decodes group form
  | single opcode => exact single_decodes group form
  | double first second => exact double_decodes group form

theorem Form.bytes_override {group : Group} (form : Form group o layout) (b : Option UInt8) :
    Layout.bytes { layout with overrideByte := b } = b.toList ++ layout.bytes := by
  have bare : layout.overrideByte = none := by
    cases form <;> rfl
  simp [Layout.bytes, bare]

theorem segmentOverride?_overrideByte (s : SegReg) : segmentOverride? s.overrideByte = some s := by
  cases s <;> rfl

/-- An override byte is no opcode. -/
theorem entry?_of_segmentOverride? {b : UInt8} {s : SegReg} (isOverride : segmentOverride? b = some s) :
    entry? b = none := by
  unfold segmentOverride? at isOverride
  split at isOverride
  · subst b; rfl
  split at isOverride
  · subst b; rfl
  split at isOverride
  · subst b; rfl
  split at isOverride
  · subst b; rfl
  · cases isOverride

theorem decode_of_decodeBody {bytes rest : List UInt8} {i : Instruction}
    (body : decodeBody bytes = some (i, rest)) : decode bytes = some (none, i, rest) := by
  cases bytes with
  | nil => cases body
  | cons first behind =>
      cases found : segmentOverride? first with
      | none => simp [decode, found, body]
      | some s => simp [decodeBody, entry?_of_segmentOverride? found] at body

/-- The bytes of a planned instruction, whatever follows them, decode to the override, to the
instruction up to its other spellings, and to what follows. -/
theorem decode_plan {segment : Option SegReg} (wellFormed : o.WellFormed)
    (planned : plan ⟨op, o⟩ segment = .ok layout) (rest : List UInt8) :
    decode (layout.bytes ++ rest) = some (segment, canonical ⟨op, o⟩, rest) := by
  obtain ⟨inner, form, rfl⟩ := plan_form planned
  have body := form.decodes wellFormed rest
  rw [form.bytes_override]
  cases segment with
  | none => exact decode_of_decodeBody body
  | some s =>
      show decode (s.overrideByte :: (inner.bytes ++ rest)) = _
      simp [decode, segmentOverride?_overrideByte, body]

/-- Adding -1 to a word at `ES:[BP-2]`, before a byte that does not belong to it. -/
theorem decode_plan_sign_extended :
    let m : Memory := ⟨.word, 1, 6, -2, false⟩
    ∃ layout, plan ⟨.add, .memImm m (.ofValue (-1) .byte)⟩ (some .es) = .ok layout ∧
      layout.bytes = [0x26, 0x83, 0x46, 0xFE, 0xFF] ∧
      decode (layout.bytes ++ [0x90]) =
        some (some .es, ⟨.add, .memImm m (.ofValue (-1) .word)⟩, [0x90]) := by
  intro m
  have wellFormed : (Operands.memImm m (.ofValue (-1) .byte)).WellFormed :=
    ⟨by decide, by decide, fun _ => by decide, fun none => absurd none (by decide)⟩
  have planned : plan ⟨.add, .memImm m (.ofValue (-1) .byte)⟩ (some .es) =
      .ok { (Layout.mem 0x83 0 m).withImm (.byte 0xFF) with overrideByte := some 0x26 } := by
    rfl
  exact ⟨_, planned, by decide, decode_plan wellFormed planned [0x90]⟩

end Asm86.Encoding
