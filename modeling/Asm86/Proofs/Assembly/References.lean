/-
# Asm86.Proofs.Assembly.References -- what the names of a source are encoded as

The symbols that come with an image say what every name in the source stands for: on a line
of some segment, a name means the label of that segment, else the first label of that name.
`Refers` and `DataPart` say what an instruction and an item of data are to hold in terms of
these symbols alone, and `label_references` that every line of an assembled source holds it:
offsets in words and bytes of data and instructions, and in a jump the distance from its end
to its target.
-/
import Asm86.Proofs.Assembly.Lines
import Asm86.Proofs.Encoding.Fields
import Asm86.Proofs.LittleEndian
import Asm86.Proofs.Symbols.Records

namespace Asm86.Assembly

open Asm86.Checked
open Asm86.Bytes
open Asm86.Text
open Asm86.Machine
open Asm86.Encoding
open Asm86.Source
open Asm86.Symbols

set_option autoImplicit false

/-! ## What lines are to hold -/

/-- The value of an expression on a line of the segment; a name counts as its offset. -/
def valueOf? (symbols : Snapshot) (segment : Option String) (e : Expr) : Option Int :=
  match e.symbol with
  | none => some e.value
  | some name => (symbols.reference? segment name).map fun r => r.offset.toNat + e.value

/-- The image address that a jump goes to; a bare number counts from the start of the
segment. -/
def targetOf? (symbols : Snapshot) (segment : Option String) (e : Expr) : Option Int :=
  match e.symbol with
  | none => (symbols.segmentRecord? segment).map fun r => r.address.toNat + e.value
  | some name => (symbols.reference? segment name).map fun r => r.address.toNat + e.value

/-- The bytes are so many of the value of the expression. -/
def Holds (symbols : Snapshot) (segment : Option String) (e : Expr) (size : Nat)
    (bytes : List UInt8) : Prop :=
  ∃ v, valueOf? symbols segment e = some v ∧ bytes = littleEndian size v

/-- The bytes after the opcode lead from `stop` to the target of the jump. -/
def Reaches (symbols : Snapshot) (segment : Option String) (stop : Nat) (e : Expr)
    (distance : List UInt8) : Prop :=
  ∃ target, targetOf? symbols segment e = some target ∧ stop + signedValue distance = target

/-- The fields of a layout that ends at `stop` hold what the names in the operands mean. -/
structure Refers (symbols : Snapshot) (segment : Option String) (stop : Nat) (op : Operation)
    (operands : List Operand) (layout : Layout) : Prop where
  /-- A jump with a byte for the distance. -/
  short : ∀ e opcode, operands = [.imm e] → op.group = .short opcode →
    ∃ d, layout.bytes = [opcode, d] ∧ Reaches symbols segment stop e [d]
  /-- A jump with a word for the distance. -/
  near : ∀ e opcode ext, operands = [.imm e] → op.group = .near opcode ext →
    ∃ d0 d1, layout.bytes = [opcode, d0, d1] ∧ Reaches symbols segment stop e [d0, d1]
  immediate : ∀ e, operands = [.imm e] ∧ op.isRelative = false ∨ (∃ o, operands = [o, .imm e]) →
    e.symbol.isSome → Holds symbols segment e 2 layout.imm.bytes
  pointer : ∀ base offset, operands = [.far base offset] ∨ operands = [.imm base, .imm offset] →
    (offset.symbol.isSome → Holds symbols segment offset 2 layout.imm.bytes) ∧
      (base.symbol.isSome → Holds symbols segment base 2 layout.imm2.bytes)
  memory : ∀ m, .mem m ∈ operands → m.disp.symbol.isSome →
    Holds symbols segment m.disp 2 layout.disp.bytes

/-- What the lead of an instruction writes. -/
def LeadBytes (lead : Option Operation) (bytes : List UInt8) : Prop :=
  match lead with
  | none => bytes = []
  | some l => ∃ layout, plan ⟨l, .none⟩ none = .ok layout ∧ bytes = layout.bytes

/-- How many bytes one number of a data statement takes. -/
def elementSize : Width → Nat
  | .byte => 1
  | _ => 2

/-- The bytes of one item of a data statement. -/
def DataPart (symbols : Snapshot) (segment : Option String) (width : Width) :
    DataItem → List UInt8 → Prop
  | .value e, part => Holds symbols segment e (elementSize width) part
  | .dup count e, part => ∃ one, part = (List.replicate count one).flatten ∧
      (count ≠ 0 → Holds symbols segment e (elementSize width) one)
  | .string text, part => part = text.flatMap fun b => littleEndian (elementSize width) b.toNat

/-- What a line that ends at `stop` is to hold. -/
def LineRefers (symbols : Snapshot) (segment : Option String) (stop : Nat) :
    Statement → List UInt8 → Prop
  | .instruction lead op operands, bytes => ∃ first o layout, bytes = first ++ layout.bytes ∧
      LeadBytes lead first ∧ plan ⟨op, o⟩ (Scope.segmentOf? operands) = .ok layout ∧
      Refers symbols segment stop op operands layout
  | .data width items, bytes => ∃ parts : List (List UInt8), bytes = parts.flatten ∧
      List.Forall₂ (DataPart symbols segment width) items parts
  | _, bytes => bytes = []

/-! ## Scopes that a snapshot describes -/

namespace Scope

/-- The encoding phase finds in the scope what the symbols say of the segment. -/
structure DescribedBy (symbols : Snapshot) (segment : Option String) (s : Scope) : Prop where
  encoding : s.phase = .encoding
  label : ∀ name l, s.symbols.resolve? name = some l →
    ∃ r, symbols.reference? segment name = some r ∧ r.offset = l.offset ∧
      s.symbols.addressOf? l = .ok (some r.address)
  start : ∀ seg, s.symbols.currentSegment? = some seg →
    ∃ r, symbols.segmentRecord? segment = some r ∧ r.address = seg.start

variable {symbols : Snapshot} {segment : Option String} {s : Scope}

theorem DescribedBy.value (described : s.DescribedBy symbols segment) {e : Expr} {v : Value}
    (found : s.value e = .ok v) : valueOf? symbols segment e = some v.value := by
  cases named : e.symbol with
  | none =>
      rw [value_plain s named] at found
      cases found
      simp [valueOf?, named]
  | some name =>
      cases resolved : s.symbols.resolve? name with
      | none => simp [Scope.value, named, resolved, described.encoding] at found
      | some l =>
          simp only [Scope.value, named, resolved] at found
          obtain ⟨w, sum, rfl⟩ := map_eq_ok.1 found
          obtain ⟨r, refers, offset, -⟩ := described.label name l resolved
          simp [valueOf?, named, refers, offset, (offsetFrom_ok.1 sum).2]

/-- An immediate with a name is a symbolic word. -/
theorem DescribedBy.immediate (described : s.DescribedBy symbols segment) {e : Expr}
    {i : Immediate} (found : s.immediate e = .ok i) (named : e.symbol.isSome) :
    i.width = .word ∧ i.symbolic = true ∧ Holds symbols segment e 2 (ofWord i.word) := by
  simp only [Scope.immediate, bind_eq_ok] at found
  obtain ⟨v, valued, w, word, result⟩ := found
  simp only [value_symbolic valued, named, ↓reduceIte, pure, Except.pure] at result
  cases result
  cases (wordOf_ok.1 word).2
  exact ⟨rfl, rfl, v.value, described.value valued, (littleEndian_word v.value).symm⟩

/-- A displacement with a name takes a word. -/
theorem DescribedBy.memory (described : s.DescribedBy symbols segment) {m : MemoryRef}
    {width : Width} {x : Memory} (found : s.memory m width = .ok x) (named : m.disp.symbol.isSome) :
    Holds symbols segment m.disp 2 (Field.ofDisp x).bytes := by
  simp only [Scope.memory, bind_eq_ok] at found
  obtain ⟨v, valued, w, word, result⟩ := found
  have symbolic : v.symbolic = true := (value_symbolic valued).trans named
  refine ⟨v.value, described.value valued, ?_⟩
  cases (wordOf_ok.1 word).2
  rw [littleEndian_word]
  cases registers : rmOf? m.base m.index with
  | none =>
      simp only [registers] at result
      cases result
      rfl
  | some rm =>
      simp only [registers, dispMode, symbolic, ↓reduceIte] at result
      cases result
      rfl

/-! ## Jumps -/

theorem DescribedBy.branchBase (described : s.DescribedBy symbols segment) {e : Expr}
    {base : Option UInt32} (found : s.branchBase e = .ok base) {seg : Segment}
    (current : s.symbols.currentSegment? = some seg) :
    ∃ address, base = some address ∧
      targetOf? symbols segment e = some (address.toNat + e.value) := by
  cases named : e.symbol with
  | none =>
      simp only [Scope.branchBase, named, current] at found
      cases found
      obtain ⟨r, record, start⟩ := described.start seg current
      exact ⟨seg.start, rfl, by simp [targetOf?, named, record, start]⟩
  | some name =>
      cases resolved : s.symbols.resolve? name with
      | none => simp [Scope.branchBase, named, resolved, described.encoding] at found
      | some l =>
          obtain ⟨r, refers, -, address⟩ := described.label name l resolved
          simp only [Scope.branchBase, named, resolved, address] at found
          cases found
          exact ⟨r.address, rfl, by simp [targetOf?, named, refers]⟩

/-- A distance leads from the end of the jump to its target. -/
theorem DescribedBy.distance (described : s.DescribedBy symbols segment) {e : Expr} {len : Nat}
    {d : Int} (found : s.distance e len = .ok d) {seg : Segment}
    (current : s.symbols.currentSegment? = some seg) {here : UInt32}
    (stands : s.symbols.here? = .ok (some here)) :
    ∃ target, targetOf? symbols segment e = some target ∧ (here.toNat + len : Nat) + d = target := by
  obtain ⟨_, here', base, based, found⟩ := distance_ok.1 found
  cases stands.symm.trans here'
  obtain ⟨address, rfl, target⟩ := described.branchBase based current
  obtain ⟨-, -, difference⟩ := found
  refine ⟨_, target, ?_⟩
  simp only [Option.getD_some] at difference
  omega

/-- The byte of a short jump is its distance. -/
theorem DescribedBy.shortBranch (described : s.DescribedBy symbols segment) {e : Expr}
    {i : Immediate} (found : s.shortBranch e = .ok i) :
    ∃ d, s.distance e 2 = .ok d ∧ signedValue [i.low] = d := by
  simp only [Scope.shortBranch, bind_eq_ok, described.encoding] at found
  obtain ⟨d, measured, found⟩ := found
  split at found
  · rename_i inRange
    cases found
    have bounds : -128 ≤ d ∧ d ≤ 127 := by simpa [Range.signed8] using inRange
    refine ⟨d, measured, ?_⟩
    show signedValue [(Int16.ofInt d).toUInt16.toUInt8] = d
    rw [← littleEndian_low, signedValue_eq] <;> omega
  · cases found

/-- The word of a near jump is its distance. -/
theorem DescribedBy.nearBranch (described : s.DescribedBy symbols segment) {e : Expr}
    {i : Immediate} (found : s.nearBranch e = .ok i) :
    ∃ d, s.distance e 3 = .ok d ∧ signedValue (ofWord i.word) = d := by
  simp only [Scope.nearBranch, bind_eq_ok, described.encoding] at found
  obtain ⟨d, measured, found⟩ := found
  split at found
  · rename_i inRange
    cases found
    have bounds : -32768 ≤ d ∧ d ≤ 32767 := by simpa [Range.signed16] using inRange
    refine ⟨d, measured, ?_⟩
    show signedValue (ofWord (UInt16.ofInt d)) = d
    rw [ofInt_eq, ← littleEndian_word, signedValue_eq] <;> omega
  · cases found

/-! ## Instructions -/

section Fields

variable {op : Operation} {operands : List Operand} {o : Operands} {layout : Layout}

theorem DescribedBy.short (described : s.DescribedBy symbols segment) {e : Expr} {opcode : UInt8}
    (source : Resolves s op [.imm e] o) (form : Form op.group o layout)
    (group : op.group = .short opcode) {seg : Segment} {here : UInt32}
    (current : s.symbols.currentSegment? = some seg) (stands : s.symbols.here? = .ok (some here)) :
    ∃ d, layout = (Layout.op opcode).withImm (.byte d) ∧
      Reaches symbols segment (here.toNat + 2) e [d] := by
  cases source with
  | imm lone =>
      rw [group] at form
      simp only [single, group] at lone
      obtain ⟨d, measured, read⟩ := described.shortBranch lone
      obtain ⟨target, leads, sum⟩ := described.distance measured current stands
      exact ⟨_, form.short_eq, target, leads, by rw [read]; exact sum⟩

theorem DescribedBy.near (described : s.DescribedBy symbols segment) {e : Expr} {opcode ext : UInt8}
    (source : Resolves s op [.imm e] o) (form : Form op.group o layout)
    (group : op.group = .near opcode ext) {seg : Segment} {here : UInt32}
    (current : s.symbols.currentSegment? = some seg) (stands : s.symbols.here? = .ok (some here)) :
    ∃ d, layout = (Layout.op opcode).withImm (.word d) ∧
      Reaches symbols segment (here.toNat + 3) e (ofWord d) := by
  cases source with
  | imm lone =>
      rw [group] at form
      simp only [single, group] at lone
      obtain ⟨d, measured, read⟩ := described.nearBranch lone
      obtain ⟨target, leads, sum⟩ := described.distance measured current stands
      exact ⟨_, form.near_eq, target, leads, by rw [read]; exact sum⟩

/-- An immediate with a name stands in full where the form has its immediate. -/
theorem DescribedBy.field (described : s.DescribedBy symbols segment) {e : Expr} {i : Immediate}
    (found : s.immediate e = .ok i) (named : e.symbol.isSome) (form : Form op.group o layout)
    (immediate : o.immediate? = some i) : Holds symbols segment e 2 layout.imm.bytes := by
  obtain ⟨word, symbolic, holds⟩ := described.immediate found named
  rw [form.imm_eq immediate word symbolic]
  exact holds

theorem DescribedBy.pointer (described : s.DescribedBy symbols segment) {base offset : Expr}
    (found : s.farPointer base offset = .ok o) (form : Form op.group o layout) :
    (offset.symbol.isSome → Holds symbols segment offset 2 layout.imm.bytes) ∧
      (base.symbol.isSome → Holds symbols segment base 2 layout.imm2.bytes) := by
  obtain ⟨i, j, left, right, rfl⟩ := farPointer_ok found
  obtain ⟨imm, imm2⟩ := form.pointer_eq
  rw [imm, imm2]
  exact ⟨fun named => (described.immediate right named).2.2,
    fun named => (described.immediate left named).2.2⟩

theorem DescribedBy.lastImmediate (described : s.DescribedBy symbols segment) {e : Expr}
    (source : Resolves s op operands o) (form : Form op.group o layout)
    (last : operands = [.imm e] ∧ op.isRelative = false ∨ ∃ first, operands = [first, .imm e])
    (named : e.symbol.isSome) : Holds symbols segment e 2 layout.imm.bytes := by
  rcases last with ⟨rfl, plain⟩ | ⟨first, rfl⟩
  · cases source with
    | imm lone =>
        rw [single_eq_immediate plain] at lone
        exact described.field lone named form rfl
  · cases source with
    | pair pointer => exact (described.pointer pointer form).1 named
    | regImm src => exact described.field src named form rfl
    | memImm dst src => exact described.field src named form rfl

theorem DescribedBy.displacement (described : s.DescribedBy symbols segment) {m : MemoryRef}
    (source : Resolves s op operands o) (form : Form op.group o layout)
    (member : .mem m ∈ operands) (named : m.disp.symbol.isSome) :
    Holds symbols segment m.disp 2 layout.disp.bytes := by
  have stored : ∀ {width : Width} {x : Memory}, s.memory m width = .ok x → o.memory? = some x →
      Holds symbols segment m.disp 2 layout.disp.bytes := by
    intro width x found memory
    rw [form.disp_eq memory]
    exact described.memory found named
  cases source with
  | mem found | regMem found | memReg found | sregMem found | memSreg found =>
      obtain rfl : _ = m := by simpa [eq_comm] using member
      exact stored found rfl
  | memImm found _ =>
      obtain rfl : _ = m := by simpa [eq_comm] using member
      exact stored found rfl
  | _ => simp at member

end Fields

/-- The fields of a planned instruction hold what its operands mean. -/
theorem DescribedBy.refers (described : s.DescribedBy symbols segment) {op : Operation}
    {operands : List Operand} {o : Operands} {layout : Layout} {seg : Segment} {here : UInt32}
    (resolved : s.operands op operands = .ok o)
    (planned : plan ⟨op, o⟩ (segmentOf? operands) = .ok layout)
    (current : s.symbols.currentSegment? = some seg) (stands : s.symbols.here? = .ok (some here)) :
    Refers symbols segment (here.toNat + layout.size) op operands layout := by
  obtain ⟨inner, form, rfl⟩ := plan_form planned
  have source := operands_ok resolved
  constructor
  case short =>
    rintro e opcode rfl group
    obtain ⟨d, rfl, reaches⟩ := described.short source form group current stands
    exact ⟨d, rfl, reaches⟩
  case near =>
    rintro e opcode ext rfl group
    obtain ⟨d, rfl, reaches⟩ := described.near source form group current stands
    exact ⟨_, _, rfl, reaches⟩
  case immediate =>
    intro e last named
    have held := described.lastImmediate source form last named
    exact held
  case pointer =>
    rintro base offset (rfl | rfl)
    · cases source with
      | far pointer =>
          have held := described.pointer pointer form
          exact held
    · cases source with
      | pair pointer =>
          have held := described.pointer pointer form
          exact held
  case memory =>
    intro m member named
    have held := described.displacement source form member named
    exact held

/-! ## Data -/

theorem DescribedBy.dataValue (described : s.DescribedBy symbols segment) {width : Width} {e : Expr}
    {bytes : List UInt8} (found : s.dataValue width e = .ok bytes) :
    Holds symbols segment e (elementSize width) bytes := by
  simp only [Scope.dataValue, bind_eq_ok] at found
  obtain ⟨v, valued, found⟩ := found
  refine ⟨v.value, described.value valued, ?_⟩
  split at found
  · rename_i byte
    rw [byte]
    split at found
    · cases found
      exact (littleEndian_byte v.value).symm
    · cases found
  · rename_i notByte
    obtain ⟨w, word, result⟩ := bind_eq_ok.1 found
    cases (wordOf_ok.1 word).2
    cases result
    have size : elementSize width = 2 := by
      cases width with
      | byte => exact absurd rfl notByte
      | word => rfl
      | dword => rfl
    rw [size, littleEndian_word]

theorem DescribedBy.dataItem (described : s.DescribedBy symbols segment) {width : Width}
    {before : Nat} {item : DataItem} {part : List UInt8}
    (found : s.dataItem width before item = .ok part) :
    DataPart symbols segment width item part := by
  cases item with
  | value e => exact described.dataValue found
  | string text =>
      simp only [Scope.dataItem] at found
      split at found
      · rename_i byte
        cases found
        simp [DataPart, byte, elementSize, (littleEndian_of_byte _).1]
      · rename_i notByte
        cases found
        cases width with
        | byte => exact absurd rfl notByte
        | word => simp [DataPart, elementSize, (littleEndian_of_byte _).2]
        | dword => simp [DataPart, elementSize, (littleEndian_of_byte _).2]
  | dup count e =>
      obtain ⟨_, -, found⟩ := bind_eq_ok.1 found
      split at found
      · rename_i none
        cases found
        exact ⟨[], by simp, fun some => absurd none some⟩
      · obtain ⟨one, valued, found⟩ := bind_eq_ok.1 found
        cases found
        exact ⟨one, rfl, fun _ => described.dataValue valued⟩

theorem DescribedBy.dataFrom (described : s.DescribedBy symbols segment) {width : Width}
    {before : Nat} {items : List DataItem} {bytes : List UInt8}
    (found : s.dataFrom width before items = .ok bytes) :
    ∃ parts : List (List UInt8), bytes = parts.flatten ∧
      List.Forall₂ (DataPart symbols segment width) items parts := by
  induction items generalizing before bytes with
  | nil =>
      cases found
      exact ⟨[], rfl, .nil⟩
  | cons item rest ih =>
      obtain ⟨first, item, found⟩ := bind_eq_ok.1 found
      obtain ⟨others, remaining, found⟩ := bind_eq_ok.1 found
      cases found
      obtain ⟨parts, rfl, held⟩ := ih remaining
      exact ⟨first :: parts, rfl, .cons (described.dataItem item) held⟩

end Scope

/-! ## Lines -/

namespace Assembler

variable {origin : Nat} {final : SymbolTable} {symbols : Snapshot} {a a' b b' : Assembler}

/-- The symbols of the first pass describe every scope of the second. -/
theorem Replays.described (replays : Replays origin final a b) (sized : final.Sized origin)
    (later : a.symbols.Extends final) (frozen : final.freeze = .ok symbols) :
    (b.scope .encoding).DescribedBy symbols a.segment? where
  encoding := rfl
  label := by
    intro name l resolved
    have related := SymbolTable.resolve?_reference? frozen replays.table.labels name
    have own : b.symbols.currentSegment?.map Segment.name = a.segment? :=
      congrArg _ replays.currentSegment?_eq
    rw [show b.symbols.resolve? name = some l from resolved, own] at related
    cases refers : symbols.reference? a.segment? name with
    | none =>
        rw [refers] at related
        cases related
    | some r =>
        rw [refers] at related
        cases related with
        | some recorded =>
            obtain ⟨address, found, rfl⟩ := SymbolTable.labelSymbol_ok.1 recorded
            have known : l ∈ final.labels :=
              replays.table.labels ▸ Scope.resolve?_mem (show b.symbols.resolve? name = _ from resolved)
            obtain ⟨-, address', -, -, -, found', -⟩ := sized.addressOf?_ok known
            cases found.symm.trans found'
            refine ⟨_, rfl, rfl, ?_⟩
            show b.symbols.addressOf? l = _
            rw [SymbolTable.addressOf?_congr (replays.table.reset_final later), found]
            rfl
  start := by
    intro seg current
    have here : a.symbols.currentSegment? = some seg := replays.currentSegment?_eq ▸ current
    have early : seg.reset ∈ final.segments.map Segment.reset :=
      later.segments.subset (List.mem_map_of_mem (SymbolTable.currentSegment?_mem here))
    obtain ⟨seg', known, same⟩ := List.mem_map.1 early
    have name : seg'.reset.name = seg.reset.name := congrArg _ same
    have start : seg'.reset.start = seg.reset.start := congrArg _ same
    refine ⟨seg'.symbol, ?_, start⟩
    rw [segment?, here, Option.map_some, show seg.name = seg'.name from name.symm]
    exact SymbolTable.segmentRecord?_eq sized frozen known

/-- An instruction without its lead, with both passes before it. -/
theorem Replays.instruction_refers (replays : Replays origin final a b) (sized : final.Sized origin)
    (later : a.symbols.Extends final) (frozen : final.freeze = .ok symbols)
    (idle : a.pending = none) {op : Operation} {operands : List Operand} {o : Operands}
    (resolved : (b.scope .encoding).operands op operands = .ok o)
    (done : Assembler.instruction .encoding ⟨op, o⟩
      { b with pending := (Scope.segmentOf? operands).or b.pending } = .ok () b') :
    ∃ layout, Encoding.plan ⟨op, o⟩ (Scope.segmentOf? operands) = .ok layout ∧
      Appends layout.bytes b.sink b'.sink ∧
      Refers symbols a.segment? (origin + b.sink.bytes.size + layout.size) op operands layout := by
  obtain ⟨layout, t, planned, moved, rfl⟩ := (instruction_encoding_ok (by exact replays.unlimited)).1 done
  rw [replays.pending, idle, Option.or_none] at planned
  obtain ⟨seg, current, -⟩ := SymbolTable.currentSegment?_advance moved
  have here : a.symbols.currentSegment? = some seg := replays.currentSegment?_eq ▸ current
  refine ⟨layout, planned, ⟨replays.unlimited, afterWriting_bytes ..⟩, ?_⟩
  rw [← replays.written]
  exact (replays.described sized later frozen).refers resolved planned current (replays.here here)

/-- An instruction line: its lead, and then the instruction. -/
theorem AtLine.instruction {verify : Bool} {number : Nat} {text : List Char} {line : Line}
    {c c' d d' : Assembler} (atLine : AtLine origin final verify number text c c' d d')
    (sized : final.Sized origin) (frozen : final.freeze = .ok symbols)
    (read : Line.parse text = .ok line) {lead : Option Operation} {op : Operation}
    {operands : List Operand} (isInstruction : line.statement = .instruction lead op operands) :
    ∃ bytes, Appends bytes d.sink d'.sink ∧
      LineRefers symbols c.segment? (origin + d.sink.bytes.size + bytes.length)
        (.instruction lead op operands) bytes := by
  obtain ⟨a, b, replays, idle, own, same, -, -, sizing, encoding⟩ := atLine.statement read
  rw [isInstruction] at sizing encoding
  obtain ⟨a', o', led, -, sizing⟩ := sourceInstruction_ok.1 sizing
  obtain ⟨b', o, led', resolved, main⟩ := sourceInstruction_ok.1 encoding
  have later : a'.symbols.Extends final := (instruction_grows sizing).extends.trans atLine.later
  cases lead with
  | none =>
      cases led
      cases led'
      obtain ⟨layout, planned, written, refers⟩ :=
        replays.instruction_refers sized later frozen idle resolved main
      refine ⟨layout.bytes, same ▸ written, [], o, layout, rfl, rfl, planned, ?_⟩
      rw [← own, ← same, Layout.length_bytes]
      exact refers
  | some l =>
      obtain ⟨b'', led'', next⟩ := replays.instruction rfl led
      cases led''.symm.trans led'
      obtain ⟨stays, -, idle'⟩ := instruction_frame led
      obtain ⟨first, plannedFirst, before⟩ := instruction_appends led' replays.unlimited
      rw [replays.pending, idle] at plannedFirst
      obtain ⟨layout, planned, written, refers⟩ :=
        next.instruction_refers sized later frozen idle' resolved main
      refine ⟨first.bytes ++ layout.bytes, same ▸ before.trans written, first.bytes, o, layout, rfl,
        ⟨first, plannedFirst, rfl⟩, planned, ?_⟩
      have size : b'.sink.bytes.size = b.sink.bytes.size + first.bytes.length := by
        rw [← Array.length_toList, before.2, List.length_append, Array.length_toList]
      rw [size, stays, own, same] at refers
      rw [List.length_append, Layout.length_bytes layout, ← Nat.add_assoc, Nat.add_assoc origin]
      exact refers

/-- Every line holds what it is to hold. -/
theorem AtLine.refers {verify : Bool} {number : Nat} {text : List Char} {line : Line}
    {c c' d d' : Assembler} (atLine : AtLine origin final verify number text c c' d d')
    (sized : final.Sized origin) (frozen : final.freeze = .ok symbols)
    (read : Line.parse text = .ok line) :
    ∃ bytes, Appends bytes d.sink d'.sink ∧
      LineRefers symbols c.segment? (origin + d.sink.bytes.size + bytes.length) line.statement
        bytes := by
  obtain ⟨a, b, replays, -, own, same, -, -, sizing, encoding⟩ := atLine.statement read
  obtain ⟨bytes, found, written⟩ := statement_appends encoding replays.unlimited
  rw [same] at written
  cases st : line.statement with
  | instruction lead op operands => exact atLine.instruction sized frozen read st
  | data width items =>
      have later : a.symbols.Extends final := (statement_grows sizing).extends.trans atLine.later
      rw [st] at found
      have held := (replays.described sized later frozen).dataFrom found
      rw [own] at held
      exact ⟨bytes, written, held⟩
  | _ =>
      rw [st] at found
      exact ⟨bytes, written, found⟩

end Assembler

/-- **Every reference in an image is right.**  The image is what its lines have written, and
every line holds what the returned symbols say of the names in it: offsets in the fields of
instructions and in data, and in a jump the distance from its end to its target. -/
theorem label_references {source : String} {cfg : Config} {out : Assembled}
    (done : assemble source cfg = .ok out) :
    (lineBytes source out.symbols cfg).flatten = out.image.bytes.toList ∧
      ∀ n text, (lines source.toList)[n]? = some text →
        ∃ line bytes, Line.parse text = .ok line ∧
          (lineBytes source out.symbols cfg)[n]? = some bytes ∧
          LineRefers out.symbols (openSegment ((lines source.toList).take n))
            (out.image.base.toNat +
              ((lineBytes source out.symbols cfg).take (n + 1)).flatten.length)
            line.statement bytes := by
  obtain ⟨last, b, pass, run, whole⟩ := assemble_ok done
  have image : out.image = ⟨cfg.origin, b.sink.bytes⟩ := congrArg Assembled.image whole
  rw [image]
  refine ⟨(pass.flatten_lineBytes run).2, fun n text there => ?_⟩
  obtain ⟨c, c', d, d', atLine, own, size, chunk⟩ := pass.line run there
  obtain ⟨line, read, -⟩ := Assembler.numberedLine_ok.1 atLine.sized
  obtain ⟨bytes, written, refers⟩ := atLine.refers pass.sized pass.frozen read
  rw [written.chunk_eq] at chunk
  refine ⟨line, bytes, read, chunk, ?_⟩
  rw [List.take_add_one, chunk, Option.toList_some, List.flatten_append, List.length_append,
    List.flatten_singleton, ← size, ← own, ← Nat.add_assoc]
  exact refers

/-- A jump forward over data, and a label of the same name in another segment. -/
def forwardJump : String := "C SEGMENT\n REP JMP N+1\nM: DW N\nN: HLT\nD SEGMENT\nN: HLT"

theorem label_references_forward_jump :
    ∃ out, assemble forwardJump { origin := 256 } = .ok out ∧
      out.image.bytes = #[0xF3, 0xE9, 3, 0, 6, 0, 0xF4, 0xF4] ∧
      ∃ line bytes, Line.parse " REP JMP N+1".toList = .ok line ∧
        (lineBytes forwardJump out.symbols { origin := 256 })[1]? = some bytes ∧
        LineRefers out.symbols (some "C") 260 line.statement bytes := by
  have done : assemble forwardJump { origin := 256 } =
      .ok ⟨⟨256, #[0xF3, 0xE9, 3, 0, 6, 0, 0xF4, 0xF4]⟩,
        [⟨.segment, "", "C", 7, 256⟩, ⟨.segment, "", "D", 1, 263⟩, ⟨.label, "M", "C", 4, 260⟩,
          ⟨.label, "N", "C", 6, 262⟩, ⟨.label, "N", "D", 0, 263⟩], []⟩ := by decide +kernel
  obtain ⟨line, bytes, read, part, refers⟩ :=
    (label_references done).2 1 " REP JMP N+1".toList (by decide +kernel)
  have own : openSegment ((lines forwardJump.toList).take 1) = some "C" := by decide +kernel
  have size : ((lineBytes forwardJump
      [⟨.segment, "", "C", 7, 256⟩, ⟨.segment, "", "D", 1, 263⟩, ⟨.label, "M", "C", 4, 260⟩,
        ⟨.label, "N", "C", 6, 262⟩, ⟨.label, "N", "D", 0, 263⟩]
      { origin := 256 }).take (1 + 1)).flatten.length = 4 := by decide +kernel
  rw [own, size] at refers
  exact ⟨_, done, rfl, line, bytes, read, part, refers⟩

end Asm86.Assembly
