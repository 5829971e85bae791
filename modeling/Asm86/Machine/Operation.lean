/-
# Asm86.Machine.Operation -- the operations of the 8086

Every operation belongs to a group whose members are encoded alike and differ by a few
constants, which the group carries.  A group says which combinations of operands it
takes at all (`Group.modes`).

An operation has one or more mnemonics.  `Operation.spellings` lists them all; of several for one
operation the first is the one that texts show.
-/
import Asm86.Machine.Operand

namespace Asm86.Machine

open Asm86.Text

set_option autoImplicit false

inductive Operation where
  | add
  | or
  | adc
  | sbb
  | and
  | sub
  | xor
  | cmp
  | mov
  | push
  | pop
  | xchg
  | inb
  | inw
  | outb
  | outw
  | lea
  | lds
  | les
  | rol
  | ror
  | rcl
  | rcr
  | shl
  | sal
  | shr
  | sar
  | not
  | neg
  | mul
  | imul
  | div
  | idiv
  | inc
  | dec
  | test
  | retn
  | retf
  | calln
  | jmpn
  | callf
  | jmpf
  | int
  | jo
  | jno
  | jb
  | jae
  | je
  | jne
  | jbe
  | ja
  | js
  | jns
  | jp
  | jnp
  | jl
  | jge
  | jle
  | jg
  | loopne
  | loope
  | loop
  | jcxz
  | jmps
  | aaa
  | aas
  | cbw
  | clc
  | cld
  | cli
  | cmc
  | cwd
  | daa
  | das
  | hlt
  | into
  | iret
  | lahf
  | lock
  | nop
  | popf
  | pushf
  | sahf
  | stc
  | std
  | sti
  | wait
  | xlat
  | movsb
  | movsw
  | cmpsb
  | cmpsw
  | stosb
  | stosw
  | lodsb
  | lodsw
  | scasb
  | scasw
  | rep
  | repne
  | aam
  | aad
  deriving DecidableEq, Repr

/-- How an operation is encoded, with the constants its group's members differ by. -/
inductive Group where
  /-- The sub-opcode, also bits 5 to 3 of the short opcodes. -/
  | arith (ext : UInt8)
  | mov
  | push
  | pop
  | xchg
  | input (width : Width)
  | output (width : Width)
  | load (opcode : UInt8) (width : Width)
  | shift (ext : UInt8)
  | unary (ext : UInt8)
  | incDec (ext : UInt8)
  | test
  /-- The plain return; the form with a word to drop is one below it. -/
  | ret (opcode : UInt8)
  | near (relative ext : UInt8)
  | far (direct ext : UInt8)
  | int
  | short (opcode : UInt8)
  | single (opcode : UInt8)
  | double (first second : UInt8)
  deriving DecidableEq, Repr

/-- The combinations of operands that some operation of the group takes. -/
def Group.modes : Group → List AddrMode
  | .arith _ | .test => [.regReg, .regMem, .memReg, .regImm, .memImm]
  | .mov => [.regReg, .regMem, .memReg, .regImm, .memImm, .sregReg, .sregMem, .regSreg, .memSreg]
  | .push | .pop => [.reg, .mem, .sreg]
  | .xchg => [.regReg, .regMem, .memReg]
  | .input _ | .output _ => [.imm, .reg]
  | .load .. => [.regMem]
  | .shift _ => [.reg, .mem, .regReg, .memReg, .regImm, .memImm]
  | .unary _ | .incDec _ => [.reg, .mem]
  | .ret _ => [.noOperand, .imm]
  | .near .. => [.imm, .reg, .mem]
  | .far .. => [.immImm, .mem]
  | .int | .short _ => [.imm]
  | .single _ | .double .. => [.noOperand]

def Group.accepts (g : Group) (m : AddrMode) : Bool := g.modes.contains m

namespace Operation

def group : Operation → Group
  | .add => .arith 0
  | .or => .arith 1
  | .adc => .arith 2
  | .sbb => .arith 3
  | .and => .arith 4
  | .sub => .arith 5
  | .xor => .arith 6
  | .cmp => .arith 7
  | .mov => .mov
  | .push => .push
  | .pop => .pop
  | .xchg => .xchg
  | .inb => .input .byte
  | .inw => .input .word
  | .outb => .output .byte
  | .outw => .output .word
  | .lea => .load 0x8D .word
  | .lds => .load 0xC5 .dword
  | .les => .load 0xC4 .dword
  | .rol => .shift 0
  | .ror => .shift 1
  | .rcl => .shift 2
  | .rcr => .shift 3
  | .shl | .sal => .shift 4
  | .shr => .shift 5
  | .sar => .shift 7
  | .not => .unary 2
  | .neg => .unary 3
  | .mul => .unary 4
  | .imul => .unary 5
  | .div => .unary 6
  | .idiv => .unary 7
  | .inc => .incDec 0
  | .dec => .incDec 1
  | .test => .test
  | .retn => .ret 0xC3
  | .retf => .ret 0xCB
  | .calln => .near 0xE8 2
  | .jmpn => .near 0xE9 4
  | .callf => .far 0x9A 3
  | .jmpf => .far 0xEA 5
  | .int => .int
  | .jo => .short 0x70
  | .jno => .short 0x71
  | .jb => .short 0x72
  | .jae => .short 0x73
  | .je => .short 0x74
  | .jne => .short 0x75
  | .jbe => .short 0x76
  | .ja => .short 0x77
  | .js => .short 0x78
  | .jns => .short 0x79
  | .jp => .short 0x7A
  | .jnp => .short 0x7B
  | .jl => .short 0x7C
  | .jge => .short 0x7D
  | .jle => .short 0x7E
  | .jg => .short 0x7F
  | .loopne => .short 0xE0
  | .loope => .short 0xE1
  | .loop => .short 0xE2
  | .jcxz => .short 0xE3
  | .jmps => .short 0xEB
  | .aaa => .single 0x37
  | .aas => .single 0x3F
  | .cbw => .single 0x98
  | .clc => .single 0xF8
  | .cld => .single 0xFC
  | .cli => .single 0xFA
  | .cmc => .single 0xF5
  | .cwd => .single 0x99
  | .daa => .single 0x27
  | .das => .single 0x2F
  | .hlt => .single 0xF4
  | .into => .single 0xCE
  | .iret => .single 0xCF
  | .lahf => .single 0x9F
  | .lock => .single 0xF0
  | .nop => .single 0x90
  | .popf => .single 0x9D
  | .pushf => .single 0x9C
  | .sahf => .single 0x9E
  | .stc => .single 0xF9
  | .std => .single 0xFD
  | .sti => .single 0xFB
  | .wait => .single 0x9B
  | .xlat => .single 0xD7
  | .movsb => .single 0xA4
  | .movsw => .single 0xA5
  | .cmpsb => .single 0xA6
  | .cmpsw => .single 0xA7
  | .stosb => .single 0xAA
  | .stosw => .single 0xAB
  | .lodsb => .single 0xAC
  | .lodsw => .single 0xAD
  | .scasb => .single 0xAE
  | .scasw => .single 0xAF
  | .rep => .single 0xF3
  | .repne => .single 0xF2
  | .aam => .double 0xD4 0x0A
  | .aad => .double 0xD5 0x0A

/-- All mnemonics, in lower case; the first for an operation is its canonical one. -/
def spellings : List (Operation × String) :=
  [(.add, "add"), (.or, "or"), (.adc, "adc"), (.sbb, "sbb"), (.and, "and"), (.sub, "sub"),
    (.xor, "xor"), (.cmp, "cmp"), (.mov, "mov"), (.push, "push"), (.pop, "pop"),
    (.xchg, "xchg"), (.inb, "inb"), (.inw, "inw"), (.outb, "outb"), (.outw, "outw"),
    (.lea, "lea"), (.lds, "lds"), (.les, "les"), (.rol, "rol"), (.ror, "ror"), (.rcl, "rcl"),
    (.rcr, "rcr"), (.shl, "shl"), (.sal, "sal"), (.shr, "shr"), (.sar, "sar"), (.not, "not"),
    (.neg, "neg"), (.mul, "mul"), (.imul, "imul"), (.div, "div"), (.idiv, "idiv"),
    (.inc, "inc"), (.dec, "dec"), (.test, "test"), (.retn, "ret"), (.retn, "retn"),
    (.retf, "retf"), (.calln, "call"), (.calln, "calln"), (.jmpn, "jmp"), (.jmpn, "jmpn"),
    (.callf, "callf"), (.jmpf, "jmpf"), (.int, "int"), (.jo, "jo"), (.jno, "jno"),
    (.jb, "jb"), (.jb, "jc"), (.jb, "jnae"), (.jae, "jae"), (.jae, "jnb"), (.jae, "jnc"),
    (.je, "je"), (.je, "jz"), (.jne, "jne"), (.jne, "jnz"), (.jbe, "jbe"), (.jbe, "jna"),
    (.ja, "ja"), (.ja, "jnbe"), (.js, "js"), (.jns, "jns"), (.jp, "jp"), (.jp, "jpe"),
    (.jnp, "jnp"), (.jnp, "jpo"), (.jl, "jl"), (.jl, "jnge"), (.jge, "jge"), (.jge, "jnl"),
    (.jle, "jle"), (.jle, "jng"), (.jg, "jg"), (.jg, "jnle"), (.loopne, "loopne"),
    (.loopne, "loopnz"), (.loope, "loope"), (.loope, "loopz"), (.loop, "loop"),
    (.jcxz, "jcxz"), (.jmps, "jmps"), (.aaa, "aaa"), (.aas, "aas"), (.cbw, "cbw"),
    (.clc, "clc"), (.cld, "cld"), (.cli, "cli"), (.cmc, "cmc"), (.cwd, "cwd"), (.daa, "daa"),
    (.das, "das"), (.hlt, "hlt"), (.into, "into"), (.iret, "iret"), (.lahf, "lahf"),
    (.lock, "lock"), (.nop, "nop"), (.popf, "popf"), (.pushf, "pushf"), (.sahf, "sahf"),
    (.stc, "stc"), (.std, "std"), (.sti, "sti"), (.wait, "wait"), (.xlat, "xlat"),
    (.movsb, "movsb"), (.movsw, "movsw"), (.cmpsb, "cmpsb"), (.cmpsw, "cmpsw"),
    (.stosb, "stosb"), (.stosw, "stosw"), (.lodsb, "lodsb"), (.lodsw, "lodsw"),
    (.scasb, "scasb"), (.scasw, "scasw"), (.rep, "rep"), (.rep, "repe"), (.rep, "repz"),
    (.repne, "repne"), (.repne, "repnz"), (.aam, "aam"), (.aad, "aad")]

/-- The canonical mnemonic, in lower case. -/
def mnemonic (op : Operation) : String :=
  match spellings.find? fun entry => entry.1 == op with
  | some entry => entry.2
  | none => "?"

/-- The canonical mnemonic as texts show it, in upper case. -/
def name (op : Operation) : String := String.ofList (upper op.mnemonic.toList)

/-- The operation with a mnemonic, in either case. -/
def ofMnemonic? (s : List Char) : Option Operation :=
  (spellings.find? fun entry => entry.2.toList == lower s).map fun entry => entry.1

/-- A lone immediate is the target of a jump and is encoded as the distance to it. -/
def isRelative (op : Operation) : Bool :=
  match op.group with
  | .short _ | .near .. => true
  | _ => false

end Operation

end Asm86.Machine
