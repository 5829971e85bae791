/-
# Asm86.Proofs.Assembly.Instructions -- counting and writing one instruction

Asking for the size of an instruction, counting it, writing it and listing it all start from one
plan, and all but the first then move the counters by the size of that plan (`counting`).  So
they fail for the same reasons, and what is written is as long as what was counted
(`size_encode_agree`).

* A planned instruction has one to seven bytes (`plan_size`).
* An override is one byte in front and changes nothing behind it (`plan_override`).
* Whatever happens after the plan, the override is used up.
-/
import Asm86.Proofs.Assembly.Steps
import Asm86.Proofs.Encoding.Forms
import Asm86.Proofs.Symbols.Consistent

namespace Asm86.Encoding

open Asm86.Checked
open Asm86.Machine

set_option autoImplicit false

/-! ## The length of a plan -/

theorem Field.size_le_two (f : Field) : f.size ≤ 2 := by
  cases f <;> simp [Field.size]

/-- An opcode is there, and what stands before the first immediate takes at most four bytes with
the second one: a far pointer has two immediates, but neither a ModRM byte nor a displacement. -/
theorem Form.head_size {group : Group} {o : Operands} {layout : Layout} (form : Form group o layout) :
    layout.overrideByte = none ∧ 1 ≤ layout.opcode.length ∧
      layout.opcode.length + layout.modrm.toList.length + layout.disp.size + layout.imm2.size ≤ 4 := by
  have disp := Field.size_le_two
  cases form <;>
    simp [Layout.op, Layout.op2, Layout.reg, Layout.mem, Layout.withImm, Field.size] <;> grind

theorem Form.size_bounds {group : Group} {o : Operands} {layout : Layout}
    (form : Form group o layout) : 1 ≤ layout.size ∧ layout.size ≤ 6 := by
  obtain ⟨bare, opcode, head⟩ := form.head_size
  have imm := layout.imm.size_le_two
  simp only [Layout.size, bare, Option.toList_none, List.length_nil]
  omega

theorem plan_size {i : Instruction} {segment : Option SegReg} {layout : Layout}
    (planned : plan i segment = .ok layout) : 1 ≤ layout.size ∧ layout.size ≤ 7 := by
  obtain ⟨inner, form, rfl⟩ := plan_form planned
  obtain ⟨least, most⟩ := form.size_bounds
  have front : (segment.map SegReg.overrideByte).toList.length ≤ 1 := by
    cases segment <;> simp
  simp only [Layout.size, form.head_size.1, Option.toList_none, List.length_nil] at least most ⊢
  omega

/-! ## The override -/

/-- An override changes the plan in its own place only. -/
theorem plan_eq_map (i : Instruction) (segment : Option SegReg) :
    plan i segment =
      (plan i none).map fun layout =>
        { layout with overrideByte := segment.map SegReg.overrideByte } := by
  unfold plan
  split
  · cases planGroup i.op.group i.operands <;> rfl
  · rfl

theorem plan_override {i : Instruction} {s : SegReg} {layout : Layout}
    (planned : plan i (some s) = .ok layout) :
    ∃ bare, plan i none = .ok bare ∧ layout.bytes = s.overrideByte :: bare.bytes := by
  rw [plan_eq_map] at planned
  obtain ⟨bare, unled, rfl⟩ := map_eq_ok.1 planned
  obtain ⟨inner, form, rfl⟩ := plan_form unled
  exact ⟨_, unled, rfl⟩

end Asm86.Encoding

namespace Asm86.Symbols.SymbolTable

set_option autoImplicit false

/-! ## Moving past bytes -/

/-- `u` is `t` after `n` more bytes of the current segment, and differs from it in nothing but
the two counters. -/
structure Passed (n : Nat) (t u : SymbolTable) : Prop where
  labels : u.labels = t.labels
  current : u.current = t.current
  image : u.imageCounter.toNat = t.imageCounter.toNat + n
  segments : ∃ k s s', t.current = some k ∧ t.segments[k]? = some s ∧
    u.segments = t.segments.set k s' ∧ s'.name = s.name ∧ s'.start = s.start ∧
    s'.counter.toNat = s.counter.toNat + n

theorem advance_outside {t : SymbolTable} (outside : t.currentSegment? = none) (n : Nat) :
    t.advance n = .error .codeOutside := by
  unfold advance
  rw [outside]
  split <;> simp_all

theorem advance_full {t : SymbolTable} {s : Segment} {n : Nat} (current : t.currentSegment? = some s)
    (full : 65536 ≤ s.counter.toNat + n) : t.advance n = .error (.segmentOverflow s.name) := by
  obtain ⟨k, isCurrent, -⟩ := Option.bind_eq_some_iff.1 current
  simp only [advance, isCurrent, current, Nat.not_lt.2 full, ↓reduceIte]

theorem advance_passed {t : SymbolTable} {s : Segment} {n : Nat}
    (current : t.currentSegment? = some s) (room : s.counter.toNat + n < 65536)
    (space : t.imageCounter.toNat + n < 4294967296) : ∃ u, t.advance n = .ok u ∧ Passed n t u := by
  obtain ⟨k, isCurrent, found⟩ := Option.bind_eq_some_iff.1 current
  obtain ⟨address, reached, place⟩ := addressAt_fits space
  refine ⟨_, advance_ok.2 ⟨k, s, address, isCurrent, found, room, reached, rfl⟩, rfl, rfl, place,
    k, s, _, isCurrent, found, rfl, rfl, rfl, ?_⟩
  simp only [UInt16.toNat_add, UInt16.toNat_ofNat']
  omega

end Asm86.Symbols.SymbolTable

namespace Asm86.Assembly

open Asm86.Machine
open Asm86.Encoding
open Asm86.Symbols
open Asm86.Output

set_option autoImplicit false

/-- The state that a step ends in, whether it succeeded or failed. -/
def ending {ε σ α : Type} : EStateM.Result ε σ α → σ
  | .ok _ a => a
  | .error _ a => a

namespace Assembler

/-! ## What the steps have in common -/

/-- Plan an instruction, move past it, and do something with the plan. -/
def counting {α : Type} (i : Instruction) (finish : Layout → AsmM α) : AsmM α := do
  let layout ← plan i
  advance layout.size
  finish layout

theorem sizeInstruction_eq (i : Instruction) :
    sizeInstruction i = counting i fun layout => pure layout.size := rfl

theorem encodeInstruction_eq (i : Instruction) :
    encodeInstruction i =
      counting i fun layout => emit layout.bytes >>= fun _ => pure layout := rfl

theorem instruction_encoding_eq (i : Instruction) :
    instruction .encoding i =
      counting i fun layout => emit layout.bytes >>= fun _ => record layout.bytes i.text := by
  simp only [instruction, encodeInstruction, counting, bind_assoc, pure_bind]

variable {α : Type} {i : Instruction} {finish : Layout → AsmM α} {a : Assembler} {layout : Layout}

theorem counting_unplanned {e : EncodeError} (unplanned : Encoding.plan i a.pending = .error e) :
    counting i finish a = .error (.encode e) { a with pending := none } := by
  simp [counting, plan, unplanned, bind, EStateM.bind]

theorem counting_refused {e : SymbolError} (planned : Encoding.plan i a.pending = .ok layout)
    (refused : a.symbols.advance layout.size = .error e) :
    counting i finish a = .error (.symbol e) { a with pending := none } := by
  simp [counting, plan, planned, advance, updateSymbols, refused, bind, EStateM.bind]

theorem counting_moved {t : SymbolTable} (planned : Encoding.plan i a.pending = .ok layout)
    (moved : a.symbols.advance layout.size = .ok t) :
    counting i finish a = finish layout { a with symbols := t, pending := none } := by
  simp [counting, plan, planned, advance, updateSymbols, moved, bind, EStateM.bind]

theorem emit_bind (unlimited : a.sink.capacity = none) (bytes : List UInt8) (next : Unit → AsmM α) :
    (emit bytes >>= next) a =
      next () { a with sink := { a.sink with bytes := a.sink.bytes ++ bytes } } := by
  show EStateM.bind _ _ a = _
  simp only [EStateM.bind, emit_unlimited unlimited]

/-! ## One-shot overrides -/

theorem emit_pending (bytes : List UInt8) (b : Assembler) :
    (ending (emit bytes b)).pending = b.pending := by
  unfold emit
  split <;> rfl

theorem emit_bind_pending {bytes : List UInt8} {next : Unit → AsmM α} {b : Assembler}
    (idle : b.pending = none) (kept : ∀ c, c.pending = none → (ending (next () c)).pending = none) :
    (ending ((emit bytes >>= next) b)).pending = none := by
  have written := emit_pending bytes b
  show (ending (EStateM.bind _ _ b)).pending = none
  unfold EStateM.bind
  cases result : emit bytes b with
  | ok _ c =>
      rw [result] at written
      exact kept c (written.trans idle)
  | error e c =>
      rw [result] at written
      exact written.trans idle

/-- The plan uses up the override, and what comes after it only has to leave that alone. -/
theorem counting_pending (kept : ∀ layout b, b.pending = none →
      (ending (finish layout b)).pending = none) :
    (ending (counting i finish a)).pending = none := by
  cases planned : Encoding.plan i a.pending with
  | error e =>
      rw [counting_unplanned planned]
      rfl
  | ok layout =>
      cases moved : a.symbols.advance layout.size with
      | error e =>
          rw [counting_refused planned moved]
          rfl
      | ok t =>
          rw [counting_moved planned moved]
          exact kept layout _ rfl

theorem size_planned (planned : Encoding.plan i a.pending = .ok layout) :
    size i a = .ok layout.size { a with pending := none } := by
  simp [size, plan, planned, bind, EStateM.bind, pure, EStateM.pure]

theorem size_unplanned {e : EncodeError} (unplanned : Encoding.plan i a.pending = .error e) :
    size i a = .error (.encode e) { a with pending := none } := by
  simp [size, plan, unplanned, bind, EStateM.bind]

/-- No override outlives a step, however the step ends and whatever the sink has room for. -/
theorem override_used_up (i : Instruction) (a : Assembler) :
    (ending (size i a)).pending = none ∧ (ending (sizeInstruction i a)).pending = none ∧
      (ending (encodeInstruction i a)).pending = none ∧
      (ending (instruction .encoding i a)).pending = none := by
  refine ⟨?_, ?_, ?_, ?_⟩
  · cases planned : Encoding.plan i a.pending with
    | error e =>
        rw [size_unplanned planned]
        rfl
    | ok layout =>
        rw [size_planned planned]
        rfl
  · rw [sizeInstruction_eq]
    exact counting_pending fun _ _ idle => idle
  · rw [encodeInstruction_eq]
    exact counting_pending fun _ _ idle => emit_bind_pending idle fun _ idle => idle
  · rw [instruction_encoding_eq]
    exact counting_pending fun _ _ idle => emit_bind_pending idle fun _ idle => idle

/-! ## Agreement -/

/-- Counting, writing and listing an instruction all fail like this, and have done nothing but
use up the pending override. -/
structure AllRefuse (i : Instruction) (a : Assembler) (e : AsmError) : Prop where
  counted : sizeInstruction i a = .error e { a with pending := none }
  written : encodeInstruction i a = .error e { a with pending := none }
  listed : instruction .encoding i a = .error e { a with pending := none }

/-- Counting, writing and listing an instruction all succeed with the table `t`; the last two
write the bytes of the plan behind what the sink holds. -/
structure AllMove (i : Instruction) (a : Assembler) (layout : Layout) (t : SymbolTable) : Prop where
  counted : sizeInstruction i a = .ok layout.size { a with symbols := t, pending := none }
  written : encodeInstruction i a = .ok layout { a with
    symbols := t
    pending := none
    sink := { a.sink with bytes := a.sink.bytes ++ layout.bytes } }
  listed : instruction .encoding i a =
    .ok () (({ a with pending := none } : Assembler).afterWriting t layout.bytes i.text)

theorem allRefuse_unplanned {e : EncodeError} (unplanned : Encoding.plan i a.pending = .error e) :
    AllRefuse i a (.encode e) where
  counted := by rw [sizeInstruction_eq, counting_unplanned unplanned]
  written := by rw [encodeInstruction_eq, counting_unplanned unplanned]
  listed := by rw [instruction_encoding_eq, counting_unplanned unplanned]

theorem allRefuse_unmoved {e : SymbolError} (planned : Encoding.plan i a.pending = .ok layout)
    (unmoved : a.symbols.advance layout.size = .error e) : AllRefuse i a (.symbol e) where
  counted := by rw [sizeInstruction_eq, counting_refused planned unmoved]
  written := by rw [encodeInstruction_eq, counting_refused planned unmoved]
  listed := by rw [instruction_encoding_eq, counting_refused planned unmoved]

theorem allMove_moved {t : SymbolTable} (unlimited : a.sink.capacity = none)
    (planned : Encoding.plan i a.pending = .ok layout)
    (moved : a.symbols.advance layout.size = .ok t) : AllMove i a layout t where
  counted := by
    rw [sizeInstruction_eq, counting_moved planned moved]
    rfl
  written := by
    rw [encodeInstruction_eq, counting_moved planned moved]
    exact emit_bind (a := { a with symbols := t, pending := none }) unlimited _ _
  listed := by
    rw [instruction_encoding_eq, counting_moved planned moved]
    exact emit_bind (a := { a with symbols := t, pending := none }) unlimited _ _

/-- **Sizing and encoding agree, and an override is for one instruction.**  Either no step can
plan the instruction, for the same reason, or all plan the same one to seven bytes, a pending
override being the first of them and making no difference to the others.  Asking for the size
moves no counter.  Without a current segment, or without room in it, nothing is counted or
written; with room, all move both counters by the length of what is written and change nothing
else in the table.  Afterwards no override is pending. -/
theorem size_encode_agree (i : Instruction) (a : Assembler) (unlimited : a.sink.capacity = none) :
    ((∃ e, size i a = .error (.encode e) { a with pending := none } ∧ AllRefuse i a (.encode e)) ∨
      ∃ layout n, layout.bytes.length = n ∧ 1 ≤ n ∧ n ≤ 7 ∧
        Encoding.plan i a.pending = .ok layout ∧
        (∀ p, a.pending = some p → ∃ bare, Encoding.plan i none = .ok bare ∧
          layout.bytes = p.overrideByte :: bare.bytes) ∧
        size i a = .ok n { a with pending := none } ∧
        (a.symbols.currentSegment? = none → AllRefuse i a (.symbol .codeOutside)) ∧
        ∀ s, a.symbols.currentSegment? = some s →
          (65536 ≤ s.counter.toNat + n → AllRefuse i a (.symbol (.segmentOverflow s.name))) ∧
          (s.counter.toNat + n < 65536 → a.symbols.imageCounter.toNat + n < 4294967296 →
            ∃ t, a.symbols.Passed n t ∧ AllMove i a layout t)) ∧
      (ending (size i a)).pending = none ∧ (ending (sizeInstruction i a)).pending = none ∧
      (ending (encodeInstruction i a)).pending = none ∧
      (ending (instruction .encoding i a)).pending = none := by
  refine ⟨?_, override_used_up i a⟩
  cases planned : Encoding.plan i a.pending with
  | error e => exact .inl ⟨e, size_unplanned planned, allRefuse_unplanned planned⟩
  | ok layout =>
      obtain ⟨least, most⟩ := plan_size planned
      refine .inr ⟨layout, layout.size, layout.length_bytes, least, most, rfl, ?_,
        size_planned planned, ?_, ?_⟩
      · intro p isPending
        rw [isPending] at planned
        exact plan_override planned
      · intro outside
        exact allRefuse_unmoved planned (SymbolTable.advance_outside outside _)
      · intro s current
        constructor
        · intro full
          exact allRefuse_unmoved planned (SymbolTable.advance_full current full)
        · intro room space
          obtain ⟨t, moved, passed⟩ := SymbolTable.advance_passed current room space
          exact ⟨t, passed, allMove_moved unlimited planned moved⟩

/-- The longest instruction there is, under an override, where it just fits its segment; and the
bytes that the machine knows as overrides. -/
theorem size_encode_agree_seven_bytes :
    let a : Assembler :=
      { symbols := ⟨[⟨"C", 16, 65528⟩], [], some 0, 65544⟩, pending := some .ss }
    let i : Instruction := ⟨.mov, .memImm ⟨.word, 2, 7, 0x1234, false⟩ (.ofValue 0x5678 .word)⟩
    ∃ layout t, AllMove i a layout t ∧ a.symbols.Passed 7 t ∧
      layout.bytes = [0x36, 0xC7, 0x87, 0x34, 0x12, 0x78, 0x56] ∧
      (Encoding.plan i none).map Layout.bytes = .ok [0xC7, 0x87, 0x34, 0x12, 0x78, 0x56] ∧
      [SegReg.es, .cs, .ss, .ds].map SegReg.overrideByte = [0x26, 0x2E, 0x36, 0x3E] := by
  intro a i
  obtain ⟨⟨e, failed, -⟩ | ⟨layout, n, length, -, -, planned, -, -, -, current⟩, -⟩ :=
    size_encode_agree i a rfl
  · cases failed
  · cases planned
    cases length
    obtain ⟨t, passed, moved⟩ := (current _ rfl).2 (by decide) (by decide)
    exact ⟨_, t, moved, passed, by decide, by decide, by decide⟩

end Assembler

end Asm86.Assembly
