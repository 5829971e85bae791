/-
# Asm86.Proofs.Encoding.Forms -- the forms that instructions are encoded in

`Form group operands layout` lists every form of machine code that some group has, with the
operands that it is for.  Planning chooses one of them (`plan_form`), so what holds of every
form holds of every planned layout.
-/
import Asm86.Encoding.Plan
import Asm86.Proofs.Checked

namespace Asm86.Encoding

open Asm86.Checked
open Asm86.Machine

set_option autoImplicit false

/-- A byte or a word. -/
def Narrow (w : Width) : Prop := w ≠ .dword

/-- A byte destination takes a byte. -/
def Takes (w : Width) (i : Immediate) : Prop := w = .byte → i.width = .byte

/-- The layouts of the groups, without an override. -/
inductive Form : Group → Operands → Layout → Prop where
  | arithRegReg {ext : UInt8} {dst src : Register} (same : dst.width = src.width)
      (narrow : Narrow dst.width) :
      Form (.arith ext) (.regReg dst src) (.reg ((ext <<< 3) ||| dst.width.bit) src.id dst.id)
  | arithRegMem {ext : UInt8} {dst : Register} {m : Memory} (same : dst.width = m.width)
      (narrow : Narrow dst.width) :
      Form (.arith ext) (.regMem dst m) (.mem ((ext <<< 3) ||| 2 ||| dst.width.bit) dst.id m)
  | arithMemReg {ext : UInt8} {m : Memory} {src : Register} (same : m.width = src.width)
      (narrow : Narrow m.width) :
      Form (.arith ext) (.memReg m src) (.mem ((ext <<< 3) ||| m.width.bit) src.id m)
  | arithAccByte {ext : UInt8} {dst : Register} {i : Immediate} (byte : dst.width = .byte)
      (fits : i.width = .byte) (acc : dst.id = 0) :
      Form (.arith ext) (.regImm dst i) ((Layout.op ((ext <<< 3) ||| 4)).withImm (.byte i.low))
  | arithRegByte {ext : UInt8} {dst : Register} {i : Immediate} (byte : dst.width = .byte)
      (fits : i.width = .byte) :
      Form (.arith ext) (.regImm dst i) ((Layout.reg 0x80 ext dst.id).withImm (.byte i.low))
  | arithRegExtended {ext : UInt8} {dst : Register} {i : Immediate} (word : dst.width = .word)
      (extends_ : i.signExtends = true) :
      Form (.arith ext) (.regImm dst i) ((Layout.reg 0x83 ext dst.id).withImm (.byte i.low))
  | arithAccWord {ext : UInt8} {dst : Register} {i : Immediate} (word : dst.width = .word)
      (acc : dst.id = 0) :
      Form (.arith ext) (.regImm dst i)
        ((Layout.op ((ext <<< 3) ||| 4 ||| 1)).withImm (.word i.word))
  | arithRegWord {ext : UInt8} {dst : Register} {i : Immediate} (word : dst.width = .word) :
      Form (.arith ext) (.regImm dst i) ((Layout.reg 0x81 ext dst.id).withImm (.word i.word))
  | arithMemByte {ext : UInt8} {m : Memory} {i : Immediate} (byte : m.width = .byte)
      (fits : i.width = .byte) :
      Form (.arith ext) (.memImm m i) ((Layout.mem 0x80 ext m).withImm (.byte i.low))
  | arithMemExtended {ext : UInt8} {m : Memory} {i : Immediate} (word : m.width = .word)
      (extends_ : i.signExtends = true) :
      Form (.arith ext) (.memImm m i) ((Layout.mem 0x83 ext m).withImm (.byte i.low))
  | arithMemWord {ext : UInt8} {m : Memory} {i : Immediate} (word : m.width = .word) :
      Form (.arith ext) (.memImm m i) ((Layout.mem 0x81 ext m).withImm (.word i.word))
  | movRegReg {dst src : Register} (same : dst.width = src.width) (narrow : Narrow dst.width) :
      Form .mov (.regReg dst src) (.reg (0x88 ||| dst.width.bit) src.id dst.id)
  | movAccDirect {dst : Register} {m : Memory} (same : dst.width = m.width)
      (narrow : Narrow dst.width) (acc : dst.id = 0) (direct : m.isDirect = true) :
      Form .mov (.regMem dst m)
        { Layout.op (0xA0 ||| dst.width.bit) with disp := .word m.disp.toUInt16 }
  | movRegMem {dst : Register} {m : Memory} (same : dst.width = m.width)
      (narrow : Narrow dst.width) :
      Form .mov (.regMem dst m) (.mem (0x8A ||| dst.width.bit) dst.id m)
  | movDirectAcc {m : Memory} {src : Register} (same : m.width = src.width)
      (narrow : Narrow m.width) (acc : src.id = 0) (direct : m.isDirect = true) :
      Form .mov (.memReg m src)
        { Layout.op (0xA2 ||| m.width.bit) with disp := .word m.disp.toUInt16 }
  | movMemReg {m : Memory} {src : Register} (same : m.width = src.width) (narrow : Narrow m.width) :
      Form .mov (.memReg m src) (.mem (0x88 ||| m.width.bit) src.id m)
  | movRegImm {dst : Register} {i : Immediate} (narrow : Narrow dst.width)
      (fits : Takes dst.width i) :
      Form .mov (.regImm dst i)
        ((Layout.op ((0xB0 : UInt8) ||| (dst.width.bit <<< 3) ||| dst.id)).withImm
          (.ofImmediate i dst.width))
  | movMemImm {m : Memory} {i : Immediate} (narrow : Narrow m.width) (fits : Takes m.width i) :
      Form .mov (.memImm m i)
        ((Layout.mem (0xC6 ||| m.width.bit) 0 m).withImm (.ofImmediate i m.width))
  | movSregReg {s : SegReg} {r : Register} (word : r.width = .word) :
      Form .mov (.sregReg s r) (.reg 0x8E s.id r.id)
  | movSregMem {s : SegReg} {m : Memory} (word : m.width = .word) :
      Form .mov (.sregMem s m) (.mem 0x8E s.id m)
  | movRegSreg {r : Register} {s : SegReg} (word : r.width = .word) :
      Form .mov (.regSreg r s) (.reg 0x8C s.id r.id)
  | movMemSreg {m : Memory} {s : SegReg} (word : m.width = .word) :
      Form .mov (.memSreg m s) (.mem 0x8C s.id m)
  | pushReg {r : Register} (word : r.width = .word) : Form .push (.reg r) (.op (0x50 ||| r.id))
  | pushSreg {s : SegReg} : Form .push (.sreg s) (.op ((0x06 : UInt8) ||| (s.id <<< 3)))
  | pushMem {m : Memory} (word : m.width = .word) : Form .push (.mem m) (.mem 0xFF 6 m)
  | popReg {r : Register} (word : r.width = .word) : Form .pop (.reg r) (.op (0x58 ||| r.id))
  | popSreg {s : SegReg} (notCode : s ≠ .cs) :
      Form .pop (.sreg s) (.op ((0x07 : UInt8) ||| (s.id <<< 3)))
  | popMem {m : Memory} (word : m.width = .word) : Form .pop (.mem m) (.mem 0x8F 0 m)
  | xchgAccReg {a b : Register} (left : a.width = .word) (right : b.width = .word)
      (acc : a.id = 0) : Form .xchg (.regReg a b) (.op (0x90 ||| b.id))
  | xchgRegAcc {a b : Register} (left : a.width = .word) (right : b.width = .word)
      (acc : b.id = 0) : Form .xchg (.regReg a b) (.op (0x90 ||| a.id))
  | xchgRegReg {a b : Register} (same : a.width = b.width) (narrow : Narrow a.width)
      (plain : a.width = .word → a.id ≠ 0 ∧ b.id ≠ 0) :
      Form .xchg (.regReg a b) (.reg (0x86 ||| a.width.bit) b.id a.id)
  | xchgRegMem {r : Register} {m : Memory} (same : r.width = m.width) (narrow : Narrow r.width) :
      Form .xchg (.regMem r m) (.mem (0x86 ||| r.width.bit) r.id m)
  | xchgMemReg {m : Memory} {r : Register} (same : r.width = m.width) (narrow : Narrow r.width) :
      Form .xchg (.memReg m r) (.mem (0x86 ||| r.width.bit) r.id m)
  | inputImm {w : Width} {i : Immediate} (byte : i.width = .byte) :
      Form (.input w) (.imm i) ((Layout.op (0xE4 ||| w.bit)).withImm (.byte i.low))
  | inputDx {w : Width} : Form (.input w) (.reg .dx) (.op ((0xE4 ||| w.bit) + 8))
  | outputImm {w : Width} {i : Immediate} (byte : i.width = .byte) :
      Form (.output w) (.imm i) ((Layout.op (0xE6 ||| w.bit)).withImm (.byte i.low))
  | outputDx {w : Width} : Form (.output w) (.reg .dx) (.op ((0xE6 ||| w.bit) + 8))
  | load {opcode : UInt8} {w : Width} {r : Register} {m : Memory} (word : r.width = .word)
      (sized : m.width = w) : Form (.load opcode w) (.regMem r m) (.mem opcode r.id m)
  | shiftReg {ext : UInt8} {r : Register} (narrow : Narrow r.width) :
      Form (.shift ext) (.reg r) (.reg (0xD0 ||| r.width.bit) ext r.id)
  | shiftMem {ext : UInt8} {m : Memory} (narrow : Narrow m.width) :
      Form (.shift ext) (.mem m) (.mem (0xD0 ||| m.width.bit) ext m)
  | shiftRegOne {ext : UInt8} {r : Register} {i : Immediate} (narrow : Narrow r.width)
      (one : i.value = 1) (literal : i.symbolic = false) :
      Form (.shift ext) (.regImm r i) (.reg (0xD0 ||| r.width.bit) ext r.id)
  | shiftMemOne {ext : UInt8} {m : Memory} {i : Immediate} (narrow : Narrow m.width)
      (one : i.value = 1) (literal : i.symbolic = false) :
      Form (.shift ext) (.memImm m i) (.mem (0xD0 ||| m.width.bit) ext m)
  | shiftRegCl {ext : UInt8} {r : Register} (narrow : Narrow r.width) :
      Form (.shift ext) (.regReg r .cl) (.reg (0xD2 ||| r.width.bit) ext r.id)
  | shiftMemCl {ext : UInt8} {m : Memory} (narrow : Narrow m.width) :
      Form (.shift ext) (.memReg m .cl) (.mem (0xD2 ||| m.width.bit) ext m)
  | unaryReg {ext : UInt8} {r : Register} (narrow : Narrow r.width) :
      Form (.unary ext) (.reg r) (.reg (0xF6 ||| r.width.bit) ext r.id)
  | unaryMem {ext : UInt8} {m : Memory} (narrow : Narrow m.width) :
      Form (.unary ext) (.mem m) (.mem (0xF6 ||| m.width.bit) ext m)
  | incDecByte {ext : UInt8} {r : Register} (byte : r.width = .byte) :
      Form (.incDec ext) (.reg r) (.reg 0xFE ext r.id)
  | incDecWord {ext : UInt8} {r : Register} (word : r.width = .word) :
      Form (.incDec ext) (.reg r) (.op ((0x40 : UInt8) ||| (ext <<< 3) ||| r.id))
  | incDecMem {ext : UInt8} {m : Memory} (narrow : Narrow m.width) :
      Form (.incDec ext) (.mem m) (.mem (0xFE ||| m.width.bit) ext m)
  | testRegReg {dst src : Register} (same : dst.width = src.width) (narrow : Narrow dst.width) :
      Form .test (.regReg dst src) (.reg (0x84 ||| dst.width.bit) src.id dst.id)
  | testRegMem {r : Register} {m : Memory} (same : r.width = m.width) (narrow : Narrow r.width) :
      Form .test (.regMem r m) (.mem (0x84 ||| r.width.bit) r.id m)
  | testMemReg {m : Memory} {r : Register} (same : r.width = m.width) (narrow : Narrow r.width) :
      Form .test (.memReg m r) (.mem (0x84 ||| r.width.bit) r.id m)
  | testAccImm {r : Register} {i : Immediate} (narrow : Narrow r.width) (fits : Takes r.width i)
      (acc : r.id = 0) :
      Form .test (.regImm r i) ((Layout.op (0xA8 ||| r.width.bit)).withImm (.ofImmediate i r.width))
  | testRegImm {r : Register} {i : Immediate} (narrow : Narrow r.width) (fits : Takes r.width i) :
      Form .test (.regImm r i)
        ((Layout.reg (0xF6 ||| r.width.bit) 0 r.id).withImm (.ofImmediate i r.width))
  | testMemImm {m : Memory} {i : Immediate} (narrow : Narrow m.width) (fits : Takes m.width i) :
      Form .test (.memImm m i)
        ((Layout.mem (0xF6 ||| m.width.bit) 0 m).withImm (.ofImmediate i m.width))
  | ret {opcode : UInt8} : Form (.ret opcode) .none (.op opcode)
  | retDrop {opcode : UInt8} {i : Immediate} :
      Form (.ret opcode) (.imm i) ((Layout.op (opcode - 1)).withImm (.word i.word))
  | nearRelative {relative ext : UInt8} {i : Immediate} :
      Form (.near relative ext) (.imm i) ((Layout.op relative).withImm (.word i.word))
  | nearReg {relative ext : UInt8} {r : Register} (word : r.width = .word) :
      Form (.near relative ext) (.reg r) (.reg 0xFF ext r.id)
  | nearMem {relative ext : UInt8} {m : Memory} (word : m.width = .word) :
      Form (.near relative ext) (.mem m) (.mem 0xFF ext m)
  | farDirect {direct ext : UInt8} {segment offset : Immediate} :
      Form (.far direct ext) (.immImm segment offset)
        { Layout.op direct with imm := .word offset.word, imm2 := .word segment.word }
  | farMem {direct ext : UInt8} {m : Memory} (dword : m.width = .dword) :
      Form (.far direct ext) (.mem m) (.mem 0xFF ext m)
  | breakpoint {i : Immediate} (byte : i.width = .byte) (three : i.value = 3) :
      Form .int (.imm i) (.op 0xCC)
  | int {i : Immediate} (byte : i.width = .byte) :
      Form .int (.imm i) ((Layout.op 0xCD).withImm (.byte i.low))
  | short {opcode : UInt8} {i : Immediate} (byte : i.width = .byte) :
      Form (.short opcode) (.imm i) ((Layout.op opcode).withImm (.byte i.low))
  | single {opcode : UInt8} : Form (.single opcode) .none (.op opcode)
  | double {first second : UInt8} : Form (.double first second) .none (.op2 first second)

/-! ## Checks -/

theorem pairBit_ok {a b : Width} {w : UInt8} :
    pairBit a b = .ok w ↔ a = b ∧ Narrow a ∧ w = a.bit := by
  unfold pairBit Narrow
  split
  · rename_i bad
    simp only [reduceCtorEq, false_iff]
    rintro ⟨same, narrow, -⟩
    exact bad.elim (· same) narrow
  · rename_i good
    simp only [not_or, not_not] at good
    obtain ⟨rfl, narrow⟩ := good
    simp [narrow, eq_comm]

theorem widthBit_ok {a : Width} {w : UInt8} : widthBit a = .ok w ↔ Narrow a ∧ w = a.bit := by
  simp [widthBit, pairBit_ok]

theorem exactly_ok {a b : Width} {v : Unit} : exactly a b = .ok v ↔ a = b := by
  unfold exactly
  split <;> simp_all

theorem immediateFits_ok {w : Width} {i : Immediate} {v : Unit} :
    immediateFits w i = .ok v ↔ Takes w i := by
  unfold immediateFits Takes
  split <;> simp_all

theorem countIsOne_ok {i : Immediate} {v : Unit} :
    countIsOne i = .ok v ↔ i.value = 1 ∧ i.symbolic = false := by
  unfold countIsOne
  split
  · rename_i bad
    simp only [reduceCtorEq, false_iff, not_and]
    intro one
    simpa [one] using bad
  · rename_i good
    simpa [and_comm] using good

theorem countIsCl_ok {r : Register} {v : Unit} : countIsCl r = .ok v ↔ r = .cl := by
  unfold countIsCl Register.isCount
  split <;> simp_all

theorem Narrow.byte_or_word {w : Width} (narrow : Narrow w) : w = .byte ∨ w = .word := by
  cases w with
  | byte => exact .inl rfl
  | word => exact .inr rfl
  | dword => exact absurd rfl narrow

theorem Narrow.word_of_ne_byte {w : Width} (narrow : Narrow w) (notByte : w ≠ .byte) : w = .word :=
  narrow.byte_or_word.resolve_left notByte

theorem Narrow.word_of_bit {w : Width} (narrow : Narrow w) (set : (w.bit == 1) = true) :
    w = .word := by
  refine narrow.word_of_ne_byte ?_
  rintro rfl
  exact absurd set (by decide)

/-! ## The groups -/

theorem arith_form {ext : UInt8} {o : Operands} {layout : Layout}
    (planned : arith ext o = .ok layout) : Form (.arith ext) o layout := by
  unfold arith at planned
  split at planned
  · simp only [bind_eq_ok, pairBit_ok] at planned
    obtain ⟨_, ⟨same, narrow, rfl⟩, ⟨⟩⟩ := planned
    exact .arithRegReg same narrow
  · simp only [bind_eq_ok, pairBit_ok] at planned
    obtain ⟨_, ⟨same, narrow, rfl⟩, ⟨⟩⟩ := planned
    exact .arithRegMem same narrow
  · simp only [bind_eq_ok, pairBit_ok] at planned
    obtain ⟨_, ⟨same, narrow, rfl⟩, ⟨⟩⟩ := planned
    exact .arithMemReg same narrow
  · simp only [bind_eq_ok, widthBit_ok, immediateFits_ok] at planned
    obtain ⟨_, ⟨narrow, rfl⟩, _, fits, planned⟩ := planned
    split at planned
    · rename_i byte
      split at planned
      · rename_i acc
        cases planned
        exact .arithAccByte byte (fits byte) (by simpa [Register.isAccumulator] using acc)
      · cases planned
        exact .arithRegByte byte (fits byte)
    · rename_i notByte
      have word := narrow.word_of_ne_byte notByte
      split at planned
      · rename_i extends_
        cases planned
        exact .arithRegExtended word extends_
      · split at planned
        · rename_i acc
          rw [word] at planned
          cases planned
          exact .arithAccWord word (by simpa [Register.isAccumulator] using acc)
        · cases planned
          exact .arithRegWord word
  · simp only [bind_eq_ok, widthBit_ok, immediateFits_ok] at planned
    obtain ⟨_, ⟨narrow, rfl⟩, _, fits, planned⟩ := planned
    split at planned
    · rename_i byte
      cases planned
      exact .arithMemByte byte (fits byte)
    · rename_i notByte
      have word := narrow.word_of_ne_byte notByte
      split at planned
      · rename_i extends_
        cases planned
        exact .arithMemExtended word extends_
      · cases planned
        exact .arithMemWord word
  · cases planned

theorem mov_form {o : Operands} {layout : Layout}
    (planned : mov o = .ok layout) : Form .mov o layout := by
  unfold mov at planned
  split at planned
  · simp only [bind_eq_ok, pairBit_ok] at planned
    obtain ⟨_, ⟨same, narrow, rfl⟩, ⟨⟩⟩ := planned
    exact .movRegReg same narrow
  · simp only [bind_eq_ok, pairBit_ok] at planned
    obtain ⟨_, ⟨same, narrow, rfl⟩, planned⟩ := planned
    split at planned
    · rename_i short
      cases planned
      obtain ⟨acc, direct⟩ := Bool.and_eq_true_iff.1 short
      exact .movAccDirect same narrow (by simpa [Register.isAccumulator] using acc) direct
    · cases planned
      exact .movRegMem same narrow
  · simp only [bind_eq_ok, pairBit_ok] at planned
    obtain ⟨_, ⟨same, narrow, rfl⟩, planned⟩ := planned
    split at planned
    · rename_i short
      cases planned
      obtain ⟨acc, direct⟩ := Bool.and_eq_true_iff.1 short
      exact .movDirectAcc same narrow (by simpa [Register.isAccumulator] using acc) direct
    · cases planned
      exact .movMemReg same narrow
  · simp only [bind_eq_ok, widthBit_ok, immediateFits_ok] at planned
    obtain ⟨_, ⟨narrow, rfl⟩, _, fits, ⟨⟩⟩ := planned
    exact .movRegImm narrow fits
  · simp only [bind_eq_ok, widthBit_ok, immediateFits_ok] at planned
    obtain ⟨_, ⟨narrow, rfl⟩, _, fits, ⟨⟩⟩ := planned
    exact .movMemImm narrow fits
  · simp only [bind_eq_ok, exactly_ok] at planned
    obtain ⟨_, sized, ⟨⟩⟩ := planned
    exact .movSregReg sized
  · simp only [bind_eq_ok, exactly_ok] at planned
    obtain ⟨_, sized, ⟨⟩⟩ := planned
    exact .movSregMem sized
  · simp only [bind_eq_ok, exactly_ok] at planned
    obtain ⟨_, sized, ⟨⟩⟩ := planned
    exact .movRegSreg sized
  · simp only [bind_eq_ok, exactly_ok] at planned
    obtain ⟨_, sized, ⟨⟩⟩ := planned
    exact .movMemSreg sized
  · cases planned

theorem push_form {o : Operands} {layout : Layout}
    (planned : push o = .ok layout) : Form .push o layout := by
  unfold push at planned
  split at planned
  · simp only [bind_eq_ok, exactly_ok] at planned
    obtain ⟨_, sized, ⟨⟩⟩ := planned
    exact .pushReg sized
  · cases planned
    exact .pushSreg
  · simp only [bind_eq_ok, exactly_ok] at planned
    obtain ⟨_, sized, ⟨⟩⟩ := planned
    exact .pushMem sized
  · cases planned

theorem pop_form {o : Operands} {layout : Layout}
    (planned : pop o = .ok layout) : Form .pop o layout := by
  unfold pop at planned
  split at planned
  · simp only [bind_eq_ok, exactly_ok] at planned
    obtain ⟨_, sized, ⟨⟩⟩ := planned
    exact .popReg sized
  · cases planned
  · rename_i notCode
    cases planned
    exact .popSreg fun isCode => notCode isCode
  · simp only [bind_eq_ok, exactly_ok] at planned
    obtain ⟨_, sized, ⟨⟩⟩ := planned
    exact .popMem sized
  · cases planned

theorem xchg_form {o : Operands} {layout : Layout}
    (planned : xchg o = .ok layout) : Form .xchg o layout := by
  unfold xchg at planned
  split at planned
  · simp only [bind_eq_ok, pairBit_ok] at planned
    obtain ⟨_, ⟨same, narrow, rfl⟩, planned⟩ := planned
    split at planned
    · rename_i short
      cases planned
      obtain ⟨word, acc⟩ := Bool.and_eq_true_iff.1 short
      have left := narrow.word_of_bit word
      exact .xchgAccReg left (same.symm.trans left) (by simpa [Register.isAccumulator] using acc)
    · rename_i notLeft
      split at planned
      · rename_i short
        cases planned
        obtain ⟨word, acc⟩ := Bool.and_eq_true_iff.1 short
        have left := narrow.word_of_bit word
        exact .xchgRegAcc left (same.symm.trans left) (by simpa [Register.isAccumulator] using acc)
      · rename_i notRight
        cases planned
        refine .xchgRegReg same narrow fun word => ?_
        simp only [word, Width.bit, Register.isAccumulator] at notLeft notRight
        exact ⟨by simpa using notLeft, by simpa using notRight⟩
  · simp only [bind_eq_ok, pairBit_ok] at planned
    obtain ⟨_, ⟨same, narrow, rfl⟩, ⟨⟩⟩ := planned
    exact .xchgRegMem same narrow
  · simp only [bind_eq_ok, pairBit_ok] at planned
    obtain ⟨_, ⟨same, narrow, rfl⟩, ⟨⟩⟩ := planned
    exact .xchgMemReg same narrow
  · cases planned

/-- Input and output have the same two forms. -/
theorem inOut_ok {opcode : UInt8} {o : Operands} {layout : Layout}
    (planned : inOut opcode o = .ok layout) :
    (∃ i, o = .imm i ∧ i.width = .byte ∧ layout = (Layout.op opcode).withImm (.byte i.low)) ∨
      (o = .reg .dx ∧ layout = .op (opcode + 8)) := by
  unfold inOut at planned
  split at planned
  · rename_i i
    simp only [bind_eq_ok, exactly_ok] at planned
    obtain ⟨_, sized, ⟨⟩⟩ := planned
    exact .inl ⟨i, rfl, sized, rfl⟩
  · split at planned
    · rename_i isDx
      cases planned
      exact .inr ⟨congrArg Operands.reg (by simpa [Register.isDx] using isDx), rfl⟩
    · cases planned
  · cases planned

theorem input_form {w : Width} {o : Operands} {layout : Layout}
    (planned : inOut (0xE4 ||| w.bit) o = .ok layout) : Form (.input w) o layout := by
  obtain ⟨i, rfl, byte, rfl⟩ | ⟨rfl, rfl⟩ := inOut_ok planned
  · exact .inputImm byte
  · exact .inputDx

theorem output_form {w : Width} {o : Operands} {layout : Layout}
    (planned : inOut (0xE6 ||| w.bit) o = .ok layout) : Form (.output w) o layout := by
  obtain ⟨i, rfl, byte, rfl⟩ | ⟨rfl, rfl⟩ := inOut_ok planned
  · exact .outputImm byte
  · exact .outputDx

theorem load_form {opcode : UInt8} {w : Width} {o : Operands} {layout : Layout}
    (planned : load opcode w o = .ok layout) : Form (.load opcode w) o layout := by
  unfold load at planned
  split at planned
  · simp only [bind_eq_ok, exactly_ok] at planned
    obtain ⟨_, word, _, sized, ⟨⟩⟩ := planned
    exact .load word sized
  · cases planned

theorem shift_form {ext : UInt8} {o : Operands} {layout : Layout}
    (planned : shift ext o = .ok layout) : Form (.shift ext) o layout := by
  unfold shift at planned
  split at planned
  · simp only [bind_eq_ok, widthBit_ok] at planned
    obtain ⟨_, ⟨narrow, rfl⟩, ⟨⟩⟩ := planned
    exact .shiftReg narrow
  · simp only [bind_eq_ok, widthBit_ok] at planned
    obtain ⟨_, ⟨narrow, rfl⟩, ⟨⟩⟩ := planned
    exact .shiftMem narrow
  · simp only [bind_eq_ok, countIsOne_ok, widthBit_ok] at planned
    obtain ⟨_, ⟨one, literal⟩, _, ⟨narrow, rfl⟩, ⟨⟩⟩ := planned
    exact .shiftRegOne narrow one literal
  · simp only [bind_eq_ok, countIsOne_ok, widthBit_ok] at planned
    obtain ⟨_, ⟨one, literal⟩, _, ⟨narrow, rfl⟩, ⟨⟩⟩ := planned
    exact .shiftMemOne narrow one literal
  · simp only [bind_eq_ok, countIsCl_ok, widthBit_ok] at planned
    obtain ⟨_, rfl, _, ⟨narrow, rfl⟩, ⟨⟩⟩ := planned
    exact .shiftRegCl narrow
  · simp only [bind_eq_ok, countIsCl_ok, widthBit_ok] at planned
    obtain ⟨_, rfl, _, ⟨narrow, rfl⟩, ⟨⟩⟩ := planned
    exact .shiftMemCl narrow
  · cases planned

theorem unary_form {ext : UInt8} {o : Operands} {layout : Layout}
    (planned : unary ext o = .ok layout) : Form (.unary ext) o layout := by
  unfold unary at planned
  split at planned
  · simp only [bind_eq_ok, widthBit_ok] at planned
    obtain ⟨_, ⟨narrow, rfl⟩, ⟨⟩⟩ := planned
    exact .unaryReg narrow
  · simp only [bind_eq_ok, widthBit_ok] at planned
    obtain ⟨_, ⟨narrow, rfl⟩, ⟨⟩⟩ := planned
    exact .unaryMem narrow
  · cases planned

theorem incDec_form {ext : UInt8} {o : Operands} {layout : Layout}
    (planned : incDec ext o = .ok layout) : Form (.incDec ext) o layout := by
  unfold incDec at planned
  split at planned
  · split at planned
    · rename_i byte
      cases planned
      exact .incDecByte byte
    · rename_i notByte
      simp only [bind_eq_ok, widthBit_ok] at planned
      obtain ⟨_, ⟨narrow, rfl⟩, ⟨⟩⟩ := planned
      exact .incDecWord (narrow.word_of_ne_byte notByte)
  · simp only [bind_eq_ok, widthBit_ok] at planned
    obtain ⟨_, ⟨narrow, rfl⟩, ⟨⟩⟩ := planned
    exact .incDecMem narrow
  · cases planned

theorem test_form {o : Operands} {layout : Layout}
    (planned : test o = .ok layout) : Form .test o layout := by
  unfold test at planned
  split at planned
  · simp only [bind_eq_ok, pairBit_ok] at planned
    obtain ⟨_, ⟨same, narrow, rfl⟩, ⟨⟩⟩ := planned
    exact .testRegReg same narrow
  · simp only [bind_eq_ok, pairBit_ok] at planned
    obtain ⟨_, ⟨same, narrow, rfl⟩, ⟨⟩⟩ := planned
    exact .testRegMem same narrow
  · simp only [bind_eq_ok, pairBit_ok] at planned
    obtain ⟨_, ⟨same, narrow, rfl⟩, ⟨⟩⟩ := planned
    exact .testMemReg same narrow
  · simp only [bind_eq_ok, widthBit_ok, immediateFits_ok] at planned
    obtain ⟨_, ⟨narrow, rfl⟩, _, fits, planned⟩ := planned
    split at planned
    · rename_i acc
      cases planned
      exact .testAccImm narrow fits (by simpa [Register.isAccumulator] using acc)
    · cases planned
      exact .testRegImm narrow fits
  · simp only [bind_eq_ok, widthBit_ok, immediateFits_ok] at planned
    obtain ⟨_, ⟨narrow, rfl⟩, _, fits, ⟨⟩⟩ := planned
    exact .testMemImm narrow fits
  · cases planned

theorem ret_form {opcode : UInt8} {o : Operands} {layout : Layout}
    (planned : ret opcode o = .ok layout) : Form (.ret opcode) o layout := by
  unfold ret at planned
  split at planned
  · cases planned
    exact .ret
  · cases planned
    exact .retDrop
  · cases planned

theorem near_form {relative ext : UInt8} {o : Operands} {layout : Layout}
    (planned : near relative ext o = .ok layout) : Form (.near relative ext) o layout := by
  unfold near at planned
  split at planned
  · cases planned
    exact .nearRelative
  · simp only [bind_eq_ok, exactly_ok] at planned
    obtain ⟨_, sized, ⟨⟩⟩ := planned
    exact .nearReg sized
  · simp only [bind_eq_ok, exactly_ok] at planned
    obtain ⟨_, sized, ⟨⟩⟩ := planned
    exact .nearMem sized
  · cases planned

theorem far_form {direct ext : UInt8} {o : Operands} {layout : Layout}
    (planned : far direct ext o = .ok layout) : Form (.far direct ext) o layout := by
  unfold far at planned
  split at planned
  · cases planned
    exact .farDirect
  · simp only [bind_eq_ok, exactly_ok] at planned
    obtain ⟨_, sized, ⟨⟩⟩ := planned
    exact .farMem sized
  · cases planned

theorem int_form {o : Operands} {layout : Layout}
    (planned : int o = .ok layout) : Form .int o layout := by
  unfold int at planned
  split at planned
  · simp only [bind_eq_ok, exactly_ok] at planned
    obtain ⟨_, byte, planned⟩ := planned
    split at planned
    · rename_i three
      cases planned
      exact .breakpoint byte three.1
    · cases planned
      exact .int byte
  · cases planned

theorem short_form {opcode : UInt8} {o : Operands} {layout : Layout}
    (planned : short opcode o = .ok layout) : Form (.short opcode) o layout := by
  unfold short at planned
  split at planned
  · simp only [bind_eq_ok, exactly_ok] at planned
    obtain ⟨_, sized, ⟨⟩⟩ := planned
    exact .short sized
  · cases planned

/-! ## All groups -/

theorem eq_none_of_mode {o : Operands} (bare : o.mode = .noOperand) : o = .none := by
  cases o <;> first | rfl | cases bare

theorem planGroup_form {group : Group} {o : Operands} {layout : Layout}
    (accepted : group.accepts o.mode = true) (planned : planGroup group o = .ok layout) :
    Form group o layout := by
  cases group with
  | arith ext => exact arith_form planned
  | mov => exact mov_form planned
  | push => exact push_form planned
  | pop => exact pop_form planned
  | xchg => exact xchg_form planned
  | input w => exact input_form planned
  | output w => exact output_form planned
  | load opcode w => exact load_form planned
  | shift ext => exact shift_form planned
  | unary ext => exact unary_form planned
  | incDec ext => exact incDec_form planned
  | test => exact test_form planned
  | ret opcode => exact ret_form planned
  | near relative ext => exact near_form planned
  | far direct ext => exact far_form planned
  | int => exact int_form planned
  | short opcode => exact short_form planned
  | single opcode =>
      obtain rfl := eq_none_of_mode (by simpa [Group.accepts, Group.modes] using accepted)
      cases planned
      exact .single
  | double first second =>
      obtain rfl := eq_none_of_mode (by simpa [Group.accepts, Group.modes] using accepted)
      cases planned
      exact .double

/-- Planning chooses a form and puts the override in front. -/
theorem plan_form {op : Operation} {o : Operands} {segment : Option SegReg} {layout : Layout}
    (planned : plan ⟨op, o⟩ segment = .ok layout) :
    ∃ inner, Form op.group o inner ∧
      layout = { inner with overrideByte := segment.map SegReg.overrideByte } := by
  unfold plan at planned
  split at planned
  · rename_i accepted
    split at planned
    · rename_i inner result
      cases planned
      exact ⟨inner, planGroup_form accepted result, rfl⟩
    · cases planned
  · cases planned

end Asm86.Encoding
