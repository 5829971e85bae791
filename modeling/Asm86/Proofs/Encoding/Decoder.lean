/-
# Asm86.Proofs.Encoding.Decoder -- reading machine code

A decoder for the machine code of the 8086, made from its opcode map and not from the
encoder: `opcodeMap` has sixteen rows of sixteen opcodes, as the map is printed.  An opcode
stands for a whole instruction, or says in which format the operands follow, or leaves both
to the middle bits of the next byte.

A segment override before an instruction is part of it.  The repeat and lock bytes are
instructions of their own.  Opcodes of the floating-point unit and unused ones have no
entry.
-/
import Asm86.Bytes
import Asm86.Machine.Instruction

namespace Asm86.Encoding

open Asm86.Machine

set_option autoImplicit false

/-! ## Formats -/

/-- How operands follow an opcode.  `rm` is the operand of the ModRM byte that is a register
or in memory, `reg` the one in its middle bits. -/
inductive Format where
  | rmReg (w : Width)
  | regRm (w : Width)
  /-- A word register and memory of the given size. -/
  | regMem (w : Width)
  | rmSreg
  | sregRm
  | rm (w : Width)
  | mem (w : Width)
  | rmCl (w : Width)
  | rmImm (w : Width)
  /-- A word and a byte that is extended by its sign. -/
  | rmExtended
  | accImm (w : Width)
  | regImm (r : Register)
  | accMem (w : Width)
  | memAcc (w : Width)
  | immByte
  | immWord
  /-- An offset and a segment. -/
  | pointer
  /-- The base of a decimal adjustment, which is ten. -/
  | ten
  deriving DecidableEq, Repr

inductive Entry where
  | whole (i : Instruction)
  | operands (op : Operation) (f : Format)
  /-- The middle bits of the next byte choose. -/
  | choice (table : List (Option (Operation × Format)))
  deriving DecidableEq, Repr

/-! ## The opcode map -/

def wordRegister (id : Nat) : Register := ⟨.word, UInt8.ofNat id⟩

def byteRegister (id : Nat) : Register := ⟨.byte, UInt8.ofNat id⟩

def whole (op : Operation) (o : Operands) : Option Entry := some (.whole ⟨op, o⟩)

def bare (op : Operation) : Option Entry := whole op .none

def operands (op : Operation) (f : Format) : Option Entry := some (.operands op f)

/-- One operation for each word register. -/
def eachRegister (op : Operation) : List (Option Entry) :=
  (List.range 8).map fun id => whole op (.reg (wordRegister id))

/-- The six opcodes of an arithmetic operation. -/
def arithmetic (op : Operation) : List (Option Entry) :=
  [operands op (.rmReg .byte), operands op (.rmReg .word), operands op (.regRm .byte),
    operands op (.regRm .word), operands op (.accImm .byte), operands op (.accImm .word)]

def jumps (ops : List Operation) : List (Option Entry) := ops.map fun op => operands op .immByte

/-- The choices of one format. -/
def choices (ops : List (Option Operation)) (f : Format) : Option Entry :=
  some (.choice (ops.map fun op => op.map fun op => (op, f)))

def immediateOperations : List (Option Operation) :=
  [some .add, some .or, some .adc, some .sbb, some .and, some .sub, some .xor, some .cmp]

def shiftOperations : List (Option Operation) :=
  [some .rol, some .ror, some .rcl, some .rcr, some .shl, some .shr, none, some .sar]

def unaryGroup (w : Width) : Option Entry :=
  some (.choice
    [some (.test, .rmImm w), none, some (.not, .rm w), some (.neg, .rm w), some (.mul, .rm w),
      some (.imul, .rm w), some (.div, .rm w), some (.idiv, .rm w)])

def byteGroup : Option Entry :=
  some (.choice [some (.inc, .rm .byte), some (.dec, .rm .byte), none, none, none, none, none, none])

def wordGroup : Option Entry :=
  some (.choice
    [some (.inc, .rm .word), some (.dec, .rm .word), some (.calln, .rm .word),
      some (.callf, .mem .dword), some (.jmpn, .rm .word), some (.jmpf, .mem .dword),
      some (.push, .rm .word), none])

/-- A group of which only the first member exists. -/
def onlyFirst (op : Operation) (f : Format) : Option Entry :=
  some (.choice [some (op, f), none, none, none, none, none, none, none])

/-- The opcodes by their high and low half. -/
def opcodeMap : List (List (Option Entry)) :=
  [ -- 0x
    arithmetic .add ++ [whole .push (.sreg .es), whole .pop (.sreg .es)] ++
      arithmetic .or ++ [whole .push (.sreg .cs), none],
    -- 1x
    arithmetic .adc ++ [whole .push (.sreg .ss), whole .pop (.sreg .ss)] ++
      arithmetic .sbb ++ [whole .push (.sreg .ds), whole .pop (.sreg .ds)],
    -- 2x and 3x; their columns 6 and E are the segment overrides
    arithmetic .and ++ [none, bare .daa] ++ arithmetic .sub ++ [none, bare .das],
    arithmetic .xor ++ [none, bare .aaa] ++ arithmetic .cmp ++ [none, bare .aas],
    -- 4x and 5x
    eachRegister .inc ++ eachRegister .dec,
    eachRegister .push ++ eachRegister .pop,
    -- 6x
    List.replicate 16 none,
    -- 7x
    jumps [.jo, .jno, .jb, .jae, .je, .jne, .jbe, .ja, .js, .jns, .jp, .jnp, .jl, .jge, .jle, .jg],
    -- 8x
    [choices immediateOperations (.rmImm .byte), choices immediateOperations (.rmImm .word),
      choices immediateOperations (.rmImm .byte), choices immediateOperations .rmExtended,
      operands .test (.rmReg .byte), operands .test (.rmReg .word),
      operands .xchg (.rmReg .byte), operands .xchg (.rmReg .word), operands .mov (.rmReg .byte),
      operands .mov (.rmReg .word), operands .mov (.regRm .byte), operands .mov (.regRm .word),
      operands .mov .rmSreg, operands .lea (.regMem .word), operands .mov .sregRm,
      onlyFirst .pop (.rm .word)],
    -- 9x
    bare .nop ::
      ((List.range 7).map fun id => whole .xchg (.regReg (wordRegister 0) (wordRegister (id + 1)))) ++
      [bare .cbw, bare .cwd, operands .callf .pointer, bare .wait, bare .pushf, bare .popf,
        bare .sahf, bare .lahf],
    -- Ax
    [operands .mov (.accMem .byte), operands .mov (.accMem .word), operands .mov (.memAcc .byte),
      operands .mov (.memAcc .word), bare .movsb, bare .movsw, bare .cmpsb, bare .cmpsw,
      operands .test (.accImm .byte), operands .test (.accImm .word), bare .stosb, bare .stosw,
      bare .lodsb, bare .lodsw, bare .scasb, bare .scasw],
    -- Bx
    ((List.range 8).map fun id => operands .mov (.regImm (byteRegister id))) ++
      (List.range 8).map fun id => operands .mov (.regImm (wordRegister id)),
    -- Cx
    [none, none, operands .retn .immWord, bare .retn, operands .les (.regMem .dword),
      operands .lds (.regMem .dword), onlyFirst .mov (.rmImm .byte), onlyFirst .mov (.rmImm .word),
      none, none, operands .retf .immWord, bare .retf, whole .int (.imm (.ofValue 3 .byte)),
      operands .int .immByte, bare .into, bare .iret],
    -- Dx
    [choices shiftOperations (.rm .byte), choices shiftOperations (.rm .word),
      choices shiftOperations (.rmCl .byte), choices shiftOperations (.rmCl .word), operands .aam .ten, operands .aad .ten, none, bare .xlat] ++
      List.replicate 8 none,
    -- Ex
    jumps [.loopne, .loope, .loop, .jcxz, .inb, .inw, .outb, .outw] ++
      [operands .calln .immWord, operands .jmpn .immWord, operands .jmpf .pointer,
        operands .jmps .immByte, whole .inb (.reg .dx), whole .inw (.reg .dx),
        whole .outb (.reg .dx), whole .outw (.reg .dx)],
    -- Fx
    [bare .lock, none, bare .repne, bare .rep, bare .hlt, bare .cmc, unaryGroup .byte,
      unaryGroup .word, bare .clc, bare .stc, bare .cli, bare .sti, bare .cld, bare .std, byteGroup,
      wordGroup]]

example : opcodeMap.map List.length = List.replicate 16 16 := by decide

def entry? (opcode : UInt8) : Option Entry :=
  ((opcodeMap.getD (opcode.toNat / 16) []).getD (opcode.toNat % 16) none)

/-! ## Operands -/

/-- The operand of a ModRM byte: a register, or an address with its displacement. -/
inductive Rm where
  | reg (id : UInt8)
  | mem (mode rm : UInt8) (disp : Int16)
  deriving DecidableEq, Repr

def middleBits (b : UInt8) : UInt8 := (b >>> 3) &&& 7

/-- Read a ModRM byte and its displacement: the middle bits, the operand and the rest. -/
def readRm : List UInt8 → Option (UInt8 × Rm × List UInt8)
  | [] => none
  | b :: bytes =>
      let mode := b >>> 6
      let rm := b &&& 7
      if mode = 3 then some (middleBits b, .reg rm, bytes)
      else if mode = 1 then
        match bytes with
        | d :: rest => some (middleBits b, .mem mode rm d.toInt8.toInt16, rest)
        | [] => none
      else if mode = 2 ∨ rm = 6 then
        match bytes with
        | low :: high :: rest =>
            some (middleBits b, .mem mode rm (Bytes.toWord low high).toInt16, rest)
        | _ => none
      else some (middleBits b, .mem mode rm 0, bytes)

def readByte : List UInt8 → Option (UInt8 × List UInt8)
  | b :: rest => some (b, rest)
  | [] => none

def readWord : List UInt8 → Option (UInt16 × List UInt8)
  | low :: high :: rest => some (Bytes.toWord low high, rest)
  | _ => none

/-- An immediate of the given size. -/
def readImmediate (w : Width) (bytes : List UInt8) : Option (Immediate × List UInt8) :=
  match w with
  | .byte => (readByte bytes).map fun (b, rest) => (.ofValue b.toUInt16.toInt16 .byte, rest)
  | _ => (readWord bytes).map fun (v, rest) => (.ofValue v.toInt16 .word, rest)

/-- Put an operand with a ModRM byte into its place. -/
def Rm.place (w : Width) (ofRegister : Register → Operands) (ofMemory : Memory → Operands) :
    Rm → Operands
  | .reg id => ofRegister ⟨w, id⟩
  | .mem mode rm disp => ofMemory ⟨w, mode, rm, disp, false⟩

/-- The memory that an operand has to be. -/
def Rm.memory? (w : Width) : Rm → Option Memory
  | .reg _ => none
  | .mem mode rm disp => some ⟨w, mode, rm, disp, false⟩

def segmentRegister? (id : UInt8) : Option SegReg := SegReg.all.find? fun s => s.id == id

namespace Format

/-- The operands of a format with a ModRM byte that was read, and the rest behind them. -/
def complete (f : Format) (reg : UInt8) (operand : Rm) (bytes : List UInt8) :
    Option (Operands × List UInt8) :=
  match f with
  | .rmReg w => some (operand.place w (.regReg · ⟨w, reg⟩) (.memReg · ⟨w, reg⟩), bytes)
  | .regRm w => some (operand.place w (.regReg ⟨w, reg⟩ ·) (.regMem ⟨w, reg⟩ ·), bytes)
  | .regMem w => (operand.memory? w).map fun m => (.regMem ⟨.word, reg⟩ m, bytes)
  | .rmSreg =>
      (segmentRegister? reg).map fun s => (operand.place .word (.regSreg · s) (.memSreg · s), bytes)
  | .sregRm =>
      (segmentRegister? reg).map fun s => (operand.place .word (.sregReg s ·) (.sregMem s ·), bytes)
  | .rm w => some (operand.place w .reg .mem, bytes)
  | .mem w => (operand.memory? w).map fun m => (.mem m, bytes)
  | .rmCl w => some (operand.place w (.regReg · .cl) (.memReg · .cl), bytes)
  | .rmImm w =>
      (readImmediate w bytes).map fun (i, rest) => (operand.place w (.regImm · i) (.memImm · i), rest)
  | .rmExtended =>
      (readByte bytes).map fun (b, rest) =>
        let i := Immediate.ofValue b.toInt8.toInt16 .word
        (operand.place .word (.regImm · i) (.memImm · i), rest)
  | _ => none

/-- Read the operands of a format, and the rest behind them. -/
def read (f : Format) (bytes : List UInt8) : Option (Operands × List UInt8) :=
  match f with
  | .accImm w => (readImmediate w bytes).map fun (i, rest) => (.regImm ⟨w, 0⟩ i, rest)
  | .regImm r => (readImmediate r.width bytes).map fun (i, rest) => (.regImm r i, rest)
  | .accMem w =>
      (readWord bytes).map fun (address, rest) => (.regMem ⟨w, 0⟩ (.direct w address), rest)
  | .memAcc w =>
      (readWord bytes).map fun (address, rest) => (.memReg (.direct w address) ⟨w, 0⟩, rest)
  | .immByte => (readImmediate .byte bytes).map fun (i, rest) => (.imm i, rest)
  | .immWord => (readImmediate .word bytes).map fun (i, rest) => (.imm i, rest)
  | .pointer => do
      let (offset, rest) ← readImmediate .word bytes
      let (segment, rest) ← readImmediate .word rest
      return (.immImm segment offset, rest)
  | .ten => do
      let (b, rest) ← readByte bytes
      if b = 10 then return (.none, rest) else none
  | f => do
      let (reg, operand, rest) ← readRm bytes
      f.complete reg operand rest

end Format

/-! ## Instructions -/

/-- The instruction at the front of the bytes, without an override, and the rest. -/
def decodeBody : List UInt8 → Option (Instruction × List UInt8)
  | [] => none
  | opcode :: bytes => do
      match ← entry? opcode with
      | .whole i => return (i, bytes)
      | .operands op f =>
          let (o, rest) ← f.read bytes
          return (⟨op, o⟩, rest)
      | .choice table =>
          let (next, _) ← readByte bytes
          let (op, f) ← table.getD (middleBits next).toNat none
          let (o, rest) ← f.read bytes
          return (⟨op, o⟩, rest)

/-- The segment that an override byte stands for. -/
def segmentOverride? (b : UInt8) : Option SegReg :=
  if b = 0x26 then some .es
  else if b = 0x2E then some .cs
  else if b = 0x36 then some .ss
  else if b = 0x3E then some .ds
  else none

/-- The override and the instruction at the front of the bytes, and the rest. -/
def decode (bytes : List UInt8) : Option (Option SegReg × Instruction × List UInt8) :=
  match bytes with
  | [] => none
  | first :: behind =>
      match segmentOverride? first with
      | some s => (decodeBody behind).map fun (i, rest) => (some s, i, rest)
      | none => (decodeBody bytes).map fun (i, rest) => (none, i, rest)

end Asm86.Encoding
