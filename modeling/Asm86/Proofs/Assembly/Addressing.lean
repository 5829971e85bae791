/-
# Asm86.Proofs.Assembly.Addressing -- memory operands keep their effective address

The machine forms an address from at most one base register, at most one index register and a
displacement.  `Rm.address?` reads them off a decoded ModRM byte: the `r/m` field chooses the
registers, except that mode 0 with `r/m` 6, where BP alone would stand, is an address without
registers.

`Scope.memory` chooses the mode by the value of the displacement and by the registers.  Whatever
it chooses, the bytes of the operand denote the registers and the displacement that the source
line has (`memory_keeps_address`); only the displacement can make it fail.
-/
import Asm86.Proofs.Assembly.Values
import Asm86.Proofs.Encoding.RoundTrip

namespace Asm86.Encoding

open Asm86.Machine
open Asm86.Source

set_option autoImplicit false

/-! ## The address of a ModRM byte -/

/-- What the machine adds up to an address; sums are taken modulo 2¹⁶. -/
structure Address where
  base : Option BaseReg
  index : Option IndexReg
  disp : Int16
  deriving DecidableEq, Repr

/-- The registers that the values of the `r/m` field stand for. -/
def rmRegisters : List (Option BaseReg × Option IndexReg) :=
  [(some .bx, some .si), (some .bx, some .di), (some .bp, some .si), (some .bp, some .di),
    (none, some .si), (none, some .di), (some .bp, none), (some .bx, none)]

/-- The address of an operand, unless it is a register. -/
def Rm.address? : Rm → Option Address
  | .reg _ => none
  | .mem mode rm disp =>
      if mode = 0 ∧ rm = 6 then some ⟨none, none, disp⟩
      else rmRegisters[rm.toNat]?.map fun registers => ⟨registers.1, registers.2, disp⟩

/-- Only the low three bits of the register field count. -/
theorem modrm_mod (mode reg rm : UInt8) : modrm mode reg rm = modrm mode (reg % 8) rm := by
  have low : reg &&& 7 = reg % 8 &&& 7 := by
    apply UInt8.toNat_inj.1
    have mask : ∀ n : Nat, n &&& 7 = n % 8 := fun n => Nat.and_two_pow_sub_one_eq_mod n 3
    simp [mask]
  simp only [modrm, low]

theorem mod_eight_le (reg : UInt8) : reg % 8 ≤ 7 := by
  rw [UInt8.le_iff_toNat_le, UInt8.toNat_mod]
  show reg.toNat % 8 ≤ 7
  omega

theorem Layout.bytes_mem (opcode reg : UInt8) (m : Memory) :
    (Layout.mem opcode reg m).bytes =
      opcode :: Encoding.modrm m.mode (reg % 8) m.rm :: (Field.ofDisp m).bytes := by
  rw [← modrm_mod]
  simp [Layout.bytes, Layout.mem, Field.bytes]

end Asm86.Encoding

namespace Asm86.Assembly

open Asm86.Checked
open Asm86.Machine
open Asm86.Encoding
open Asm86.Source
open Asm86.Symbols

set_option autoImplicit false

namespace Scope

/-! ## What expressions read as -/

/-- The number that an expression reads as: a known label counts as its offset, any other name
as zero. -/
def reading (s : Scope) (e : Expr) : Int :=
  ((e.symbol.bind s.symbols.resolve?).elim 0 fun l => (l.offset.toNat : Int)) + e.value

theorem value_reading {s : Scope} {e : Expr} {v : Value} (found : s.value e = .ok v) :
    v.value = s.reading e := by
  cases named : e.symbol with
  | none =>
      rw [value_plain s named] at found
      cases found
      simp [reading, named]
  | some name =>
      cases resolved : s.symbols.resolve? name with
      | some l =>
          simp only [value, named, resolved] at found
          obtain ⟨w, sum, rfl⟩ := map_eq_ok.1 found
          simp [reading, named, resolved, (offsetFrom_ok.1 sum).2]
      | none =>
          cases phase : s.phase with
          | sizing =>
              simp only [value, named, resolved, phase] at found
              cases found
              simp [reading, named, resolved]
          | encoding => simp [value, named, resolved, phase] at found

/-! ## Modes -/

theorem dispMode_cases (v : Value) (rm : UInt8) :
    (dispMode v rm = 0 ∧ v.value = 0 ∧ rm ≠ 6) ∨
      (dispMode v rm = 1 ∧ Range.signed8 v.value = true) ∨ dispMode v rm = 2 := by
  unfold dispMode
  split
  · exact .inr (.inr rfl)
  · split
    · rename_i absent
      exact .inl ⟨rfl, absent⟩
    · split
      · rename_i byte
        exact .inr (.inl ⟨rfl, byte⟩)
      · exact .inr (.inr rfl)

/-- The registers of a reference have a value of the `r/m` field, which stands for them. -/
theorem rmOf?_some {base : Option BaseReg} {index : Option IndexReg} {rm : UInt8}
    (found : rmOf? base index = some rm) :
    rm ≤ 7 ∧ rm &&& 7 = rm ∧ rmRegisters[rm.toNat]? = some (base, index) := by
  unfold rmOf? at found
  split at found <;> cases found <;> decide

theorem rmOf?_none {base : Option BaseReg} {index : Option IndexReg}
    (absent : rmOf? base index = none) : base = none ∧ index = none := by
  unfold rmOf? at absent
  split at absent <;> first | exact ⟨rfl, rfl⟩ | cases absent

/-- The fields of a memory operand. -/
theorem memory_ok {s : Scope} {m : MemoryRef} {width : Width} {x : Memory}
    (found : s.memory m width = .ok x) :
    ∃ v, s.value m.disp = .ok v ∧ Range.word v.value = true ∧ x.disp = Int16.ofInt v.value ∧
      ((m.base = none ∧ m.index = none ∧ x.mode = 0 ∧ x.rm = 6) ∨
        ∃ rm, rmOf? m.base m.index = some rm ∧ x.mode = dispMode v rm ∧ x.rm = rm) := by
  simp only [memory, bind_eq_ok] at found
  obtain ⟨v, valued, w, word, found⟩ := found
  obtain ⟨inside, rfl⟩ := wordOf_ok.1 word
  refine ⟨v, valued, inside, ?_⟩
  cases registers : rmOf? m.base m.index with
  | none =>
      simp only [registers] at found
      cases found
      obtain ⟨noBase, noIndex⟩ := rmOf?_none registers
      exact ⟨by simp [Memory.direct], .inl ⟨noBase, noIndex, rfl, rfl⟩⟩
  | some rm =>
      simp only [registers] at found
      cases found
      refine ⟨rfl, .inr ⟨rm, rfl, ?_, (rmOf?_some registers).2.1⟩⟩
      rcases dispMode_cases v rm with ⟨mode, -⟩ | ⟨mode, -⟩ | mode <;>
        simp only [Memory.based, mode] <;> rfl

theorem memory_wellFormed {s : Scope} {m : MemoryRef} {width : Width} {x : Memory}
    (found : s.memory m width = .ok x) : x.WellFormed := by
  obtain ⟨v, -, -, disp, ⟨-, -, mode, rm⟩ | ⟨rm, registers, mode, same⟩⟩ := memory_ok found
  · exact ⟨by rw [mode]; decide, by rw [rm]; decide, fun one => by simp [mode] at one,
      fun _ other => absurd rm other⟩
  · obtain ⟨three, -⟩ := rmOf?_some registers
    refine ⟨?_, same ▸ three, ?_, ?_⟩
    · rcases dispMode_cases v rm with ⟨chosen, -⟩ | ⟨chosen, -⟩ | chosen <;>
        rw [mode, chosen] <;> decide
    · intro one
      rw [mode] at one
      rcases dispMode_cases v rm with ⟨chosen, -⟩ | ⟨-, byte⟩ | chosen
      · simp [chosen] at one
      · simp only [Range.signed8, Bool.and_eq_true, decide_eq_true_eq] at byte
        rw [disp, Int16.toInt_ofInt_of_le] <;> omega
      · simp [chosen] at one
    · intro zero _
      rw [mode] at zero
      rcases dispMode_cases v rm with ⟨-, absent, -⟩ | ⟨chosen, -⟩ | chosen
      · rw [disp, absent]
        rfl
      · simp [chosen] at zero
      · simp [chosen] at zero

theorem memory_address {s : Scope} {m : MemoryRef} {width : Width} {x : Memory}
    (found : s.memory m width = .ok x) :
    (Rm.mem x.mode x.rm x.disp).address? =
      some ⟨m.base, m.index, Int16.ofInt (s.reading m.disp)⟩ := by
  obtain ⟨v, valued, -, disp, ⟨noBase, noIndex, mode, rm⟩ | ⟨rm, registers, mode, same⟩⟩ :=
    memory_ok found
  · simp [Rm.address?, mode, rm, noBase, noIndex, disp, value_reading valued]
  · have based : ¬ (x.mode = 0 ∧ x.rm = 6) := by
      rintro ⟨zero, six⟩
      rw [mode] at zero
      rcases dispMode_cases v rm with ⟨-, -, other⟩ | ⟨chosen, -⟩ | chosen
      · exact other (same ▸ six)
      · simp [chosen] at zero
      · simp [chosen] at zero
    rw [Rm.address?, if_neg based, same, (rmOf?_some registers).2.2, disp, value_reading valued]
    rfl

/-- Only the displacement decides whether there is an operand. -/
theorem memory_error {s : Scope} {m : MemoryRef} {width : Width} {e : AsmError} :
    s.memory m width = .error e ↔ s.value m.disp = .error e ∨
      ∃ v, s.value m.disp = .ok v ∧ Range.word v.value = false ∧
        e = .immediateOutOfRange v.value := by
  unfold memory
  cases valued : s.value m.disp with
  | error e' => simp [bind, Except.bind]
  | ok v =>
      cases word : wordOf v.value with
      | error e' =>
          obtain ⟨outside, rfl⟩ := wordOf_error.1 word
          simp only [bind, Except.bind, word, reduceCtorEq, Except.error.injEq, Except.ok.injEq,
            exists_eq_left', outside, true_and, false_or]
          exact eq_comm
      | ok d =>
          have inside := (wordOf_ok.1 word).1
          cases rmOf? m.base m.index <;> simp [bind, Except.bind, pure, Except.pure, word, inside]

end Scope

/-- **A memory operand keeps its effective address.**  Whatever its registers, a reference fails
only when its displacement has no value or one that is no word.  Otherwise the ModRM byte and the
displacement behind it are read as an operand in memory, with the given register field, whose
address has the base and the index of the reference and, modulo 2¹⁶, its displacement. -/
theorem memory_keeps_address (s : Scope) (m : MemoryRef) (width : Width) (opcode reg : UInt8) :
    (∀ e, s.memory m width = .error e ↔ s.value m.disp = .error e ∨
      ∃ v, s.value m.disp = .ok v ∧ Range.word v.value = false ∧
        e = .immediateOutOfRange v.value) ∧
    ∀ x, s.memory m width = .ok x →
      ∃ first behind operand address,
        (Layout.mem opcode reg x).bytes = opcode :: first :: behind ∧
        (∀ rest, readRm (first :: (behind ++ rest)) = some (reg % 8, operand, rest)) ∧
        first >>> 6 ≠ 3 ∧ operand.address? = some address ∧
        address.base = m.base ∧ address.index = m.index ∧
        address.disp.toInt % 65536 = s.reading m.disp % 65536 := by
  refine ⟨fun e => Scope.memory_error, fun x found => ?_⟩
  have wellFormed := Scope.memory_wellFormed found
  have three := mod_eight_le reg
  obtain ⟨mode, -⟩ := fields_modrm (UInt8.le_trans wellFormed.mode (by decide)) three wellFormed.rm
  refine ⟨modrm x.mode (reg % 8) x.rm, (Field.ofDisp x).bytes, .mem x.mode x.rm x.disp, _,
    Layout.bytes_mem opcode reg x, readRm_mem three wellFormed, ?_, Scope.memory_address found,
    rfl, rfl, ?_⟩
  · rw [mode]
    rcases wellFormed.modes with chosen | chosen | chosen <;> rw [chosen] <;> decide
  · rw [Int16.toInt_ofInt]
    exact Int.bmod_emod ..

/-- A displacement that a signed byte would hold only after wrapping around, behind BP.  It counts
from a label that two segments have, the current one and one before it. -/
theorem memory_keeps_address_wrapped :
    let s : Scope :=
      ⟨⟨[⟨"D", 0, 32⟩, ⟨"C", 32, 65290⟩], [⟨"V", "D", 16⟩, ⟨"V", "C", 65280⟩], some 1, 65322⟩,
        .encoding⟩
    let m : MemoryRef := { base := some .bp, disp := { value := 128, symbol := some "V" } }
    ∃ x, s.memory m .word = .ok x ∧ (Layout.mem 0x8B 0x2F x).bytes = [0x8B, 0xBE, 0x80, 0xFF] ∧
      ∃ operand address, readRm [0xBE, 0x80, 0xFF, 0x90] = some (7, operand, [0x90]) ∧
        operand.address? = some address ∧ address.base = some .bp ∧ address.index = none ∧
        address.disp.toInt % 65536 = 65280 + 128 := by
  intro s m
  have found : s.memory m .word = .ok ⟨.word, 2, 6, -128, true⟩ := by decide
  have counted : s.reading m.disp % 65536 = 65280 + 128 := by decide
  obtain ⟨first, behind, operand, address, bytes, read, -, denotes, base, index, disp⟩ :=
    (memory_keeps_address s m .word 0x8B 0x2F).2 _ found
  cases bytes
  exact ⟨_, found, by decide, operand, address, read [0x90], denotes, base, index,
    disp.trans counted⟩

end Asm86.Assembly
