/-
# Asm86.Proofs.Assembly.Placeholders -- what sizing refuses that encoding accepts

While sizes are taken, a name that is not known yet counts as zero and one that only another
segment defines counts as the label there.  Jumps let such a placeholder pass.  Everywhere else
it is put through the range check of its field, with the constant beside it, and the check can
fail although the final value fits.

`Scope.Judged` says that range checks over some numbers are all that decides.  Statements that
the encoding phase accepts, with more labels known, are judged so by the sizing phase
(`sizing_accepts_iff`).
-/
import Asm86.Assembly.Pass
import Asm86.Proofs.Assembly.Addressing
import Asm86.Proofs.Assembly.Jumps

namespace Asm86.Assembly

open Asm86.Checked
open Asm86.Machine
open Asm86.Source
open Asm86.Symbols

set_option autoImplicit false

/-! ## The numbers that are checked -/

/-- The numbers in an operand. -/
def operandNumbers : Operand → List Expr
  | .mem m => [m.disp]
  | .imm e => [e]
  | .far segment offset => [segment, offset]
  | .reg _ | .sreg _ => []

/-- The numbers of an instruction that have to be words: all but the target of a jump. -/
def wordNumbers (op : Operation) : List Operand → List Expr
  | [.imm e] => if op.isRelative then [] else [e]
  | sources => sources.flatMap operandNumbers

/-- The numbers of a data item; one that is repeated no times is not looked at. -/
def itemNumbers : DataItem → List Expr
  | .string _ => []
  | .value e => [e]
  | .dup count e => if count = 0 then [] else [e]

/-- The numbers that a field of a data statement holds. -/
def fitsField (width : Width) (v : Int) : Bool :=
  if width = .byte then Range.byte v else Range.word v

namespace Scope

variable {s : Scope} {fits : Int → Bool}

/-- `x` succeeds exactly when the numbers fit, as the scope reads them, and otherwise it reports
one that does not. -/
structure Judged {α : Type} (s : Scope) (fits : Int → Bool) (numbers : List Expr)
    (x : Except AsmError α) : Prop where
  accepted : (∃ a, x = .ok a) ↔ ∀ e ∈ numbers, fits (s.reading e) = true
  refused : ∀ err, x = .error err →
    ∃ e ∈ numbers, fits (s.reading e) = false ∧ err = .immediateOutOfRange (s.reading e)

theorem judged_ok {α : Type} (a : α) : s.Judged fits [] (.ok a : Except AsmError α) where
  accepted := ⟨fun _ _ impossible => absurd impossible List.not_mem_nil, fun _ => ⟨a, rfl⟩⟩
  refused := fun _ impossible => nomatch impossible

theorem judged_error {α : Type} {numbers : List Expr} {e : Expr} (member : e ∈ numbers)
    (outside : fits (s.reading e) = false) :
    s.Judged fits numbers (.error (.immediateOutOfRange (s.reading e)) : Except AsmError α) where
  accepted := by
    constructor
    · rintro ⟨_, impossible⟩
      cases impossible
    · intro all
      rw [all e member] at outside
      cases outside
  refused := by
    intro err same
    cases same
    exact ⟨e, member, outside, rfl⟩

/-- One number that is judged by itself. -/
theorem judged_ite {α : Type} (fits : Int → Bool) (e : Expr) (a : α) :
    s.Judged fits [e] (if fits (s.reading e) then .ok a
      else .error (.immediateOutOfRange (s.reading e)) : Except AsmError α) := by
  cases inside : fits (s.reading e) with
  | false => exact judged_error (List.mem_singleton_self e) inside
  | true =>
      refine ⟨⟨fun _ e' member => ?_, fun _ => ⟨a, rfl⟩⟩, fun _ impossible => nomatch impossible⟩
      rw [List.mem_singleton.1 member, inside]

theorem Judged.bind {α β : Type} {x : Except AsmError α} {f : α → Except AsmError β}
    {numbers others : List Expr} (first : s.Judged fits numbers x)
    (next : ∀ a, x = .ok a → s.Judged fits others (f a)) :
    s.Judged fits (numbers ++ others) (x >>= f) := by
  cases x with
  | error err =>
      obtain ⟨e, member, outside, rfl⟩ := first.refused err rfl
      exact judged_error (List.mem_append_left _ member) outside
  | ok a =>
      have before := first.accepted.1 ⟨a, rfl⟩
      obtain ⟨accepted, refused⟩ := next a rfl
      refine ⟨accepted.trans ⟨fun all e member => ?_, fun all e member => ?_⟩, fun err failed => ?_⟩
      · exact (List.mem_append.1 member).elim (before e) (all e)
      · exact all e (List.mem_append_right _ member)
      · obtain ⟨e, member, misfit⟩ := refused err failed
        exact ⟨e, List.mem_append_right _ member, misfit⟩

/-- A last step that cannot fail decides nothing. -/
theorem Judged.then_ok {α β : Type} {x : Except AsmError α} {f : α → Except AsmError β}
    {numbers : List Expr} (first : s.Judged fits numbers x)
    (last : ∀ a, x = .ok a → ∃ b, f a = .ok b) : s.Judged fits numbers (x >>= f) := by
  rw [← List.append_nil numbers]
  refine first.bind fun a found => ?_
  obtain ⟨b, done⟩ := last a found
  rw [done]
  exact judged_ok b

theorem Judged.map {α β : Type} {x : Except AsmError α} {numbers : List Expr}
    (first : s.Judged fits numbers x) (f : α → β) : s.Judged fits numbers (x.map f) := by
  cases x with
  | error err =>
      obtain ⟨e, member, outside, rfl⟩ := first.refused err rfl
      exact judged_error member outside
  | ok a => exact first.then_ok (f := fun a => .ok (f a)) fun _ _ => ⟨_, rfl⟩

/-! ## Single numbers -/

/-- A number whose value fits a word is far from the ends of 64 bits. -/
theorem bounded_of_value {e : Expr} {v : Value} (found : s.value e = .ok v)
    (word : Range.word v.value = true) : Bounded e := by
  simp only [Range.word, Bool.and_eq_true, decide_eq_true_eq, value_reading found] at word
  unfold reading at word
  unfold Bounded
  cases known : e.symbol.bind s.symbols.resolve? with
  | none =>
      simp only [known, Option.elim_none] at word
      omega
  | some l =>
      have below := l.offset.toNat_lt
      simp only [known, Option.elim_some] at word
      omega

/-- In the sizing phase every such number has a value. -/
theorem value_sizing (sizing : s.phase = .sizing) {e : Expr} (bounded : Bounded e) :
    s.value e = .ok ⟨s.reading e, e.symbol.isSome⟩ := by
  cases named : e.symbol with
  | none => simp [value_plain s named, reading, named]
  | some name =>
      cases resolved : s.symbols.resolve? name with
      | none => simp [value, reading, named, resolved, sizing]
      | some l =>
          have below := l.offset.toNat_lt
          have sum : offsetFrom l.offset.toNat e = .ok (l.offset.toNat + e.value) := by
            refine offsetFrom_ok.2 ⟨?_, rfl⟩
            unfold Bounded at bounded
            simp only [Range.signed64, Bool.and_eq_true, decide_eq_true_eq]
            omega
          simp [value, reading, named, resolved, sum, Except.map]

theorem bounded_of_immediate {e : Expr} {i : Immediate} (found : s.immediate e = .ok i) :
    Bounded e := by
  obtain ⟨v, valued, found⟩ := bind_eq_ok.1 found
  obtain ⟨w, word, -⟩ := bind_eq_ok.1 found
  exact bounded_of_value valued (wordOf_ok.1 word).1

theorem bounded_of_memory {m : MemoryRef} {width : Width} {x : Memory}
    (found : s.memory m width = .ok x) : Bounded m.disp := by
  obtain ⟨v, valued, word, -⟩ := memory_ok found
  exact bounded_of_value valued word

theorem bounded_of_dataValue {width : Width} {e : Expr} {bytes : List UInt8}
    (found : s.dataValue width e = .ok bytes) : Bounded e := by
  obtain ⟨v, valued, found⟩ := bind_eq_ok.1 found
  refine bounded_of_value valued ?_
  split at found
  · split at found
    · rename_i byte
      simp only [Range.byte, Range.word, Bool.and_eq_true, decide_eq_true_eq] at byte ⊢
      omega
    · cases found
  · obtain ⟨w, word, -⟩ := bind_eq_ok.1 found
    exact (wordOf_ok.1 word).1

theorem judged_immediate (sizing : s.phase = .sizing) {e : Expr} (bounded : Bounded e) :
    s.Judged Range.word [e] (s.immediate e) := by
  unfold immediate
  rw [value_sizing sizing bounded]
  refine (judged_ite Range.word e _).then_ok fun w _ => ?_
  dsimp only
  split <;> exact ⟨_, rfl⟩

theorem judged_memory (sizing : s.phase = .sizing) {m : MemoryRef} (bounded : Bounded m.disp)
    (width : Width) : s.Judged Range.word [m.disp] (s.memory m width) := by
  unfold memory
  rw [value_sizing sizing bounded]
  refine (judged_ite Range.word m.disp _).then_ok fun w _ => ?_
  dsimp only
  split <;> exact ⟨_, rfl⟩

theorem judged_dataValue (sizing : s.phase = .sizing) {e : Expr} (bounded : Bounded e)
    (width : Width) : s.Judged (fitsField width) [e] (s.dataValue width e) := by
  unfold dataValue
  rw [value_sizing sizing bounded]
  cases width with
  | byte => exact judged_ite (fitsField .byte) e _
  | word | dword => exact (judged_ite (fitsField .word) e _).then_ok fun w _ => ⟨_, rfl⟩

/-! ## Jumps -/

variable {t : SymbolTable}

/-- A name that is known keeps to known segments when labels are added. -/
theorem resolve?_owned (owned : t.Owned) (added : List Label) {name : String} {l l' : Label}
    (found : t.resolve? name = some l)
    (found' : { t with labels := t.labels ++ added }.resolve? name = some l') :
    l'.segment ∈ t.segments.map Segment.name := by
  rcases Option.or_eq_some_iff.1 found' with near | ⟨-, far⟩
  · obtain ⟨seg, current, near⟩ := Option.bind_eq_some_iff.1 near
    have matched := List.find?_some near
    simp only [Bool.and_eq_true, beq_iff_eq] at matched
    rw [matched.2]
    exact List.mem_map_of_mem (SymbolTable.currentSegment?_mem current)
  · -- The earliest label of this name is an old one, whichever `found` is.
    have named : l.name = name := by
      rcases Option.or_eq_some_iff.1 found with near | ⟨-, far⟩
      · obtain ⟨_, -, near⟩ := Option.bind_eq_some_iff.1 near
        have matched := List.find?_some near
        simp only [Bool.and_eq_true, beq_iff_eq] at matched
        exact matched.1
      · simpa using List.find?_some far
    have old : (t.labels.find? fun l => l.name == name).isSome :=
      List.find?_isSome.2 ⟨l, resolve?_mem found, by simp [named]⟩
    rw [List.find?_append] at far
    obtain ⟨l'', earliest⟩ := Option.isSome_iff_exists.1 old
    rw [earliest, Option.some_or] at far
    cases far
    exact owned _ (List.mem_of_find?_eq_some earliest)

/-- A jump whose target has a place has one still when labels are added. -/
theorem branchBase_added (owned : t.Owned) (added : List Label) {e : Expr} {address : UInt32}
    (found : Scope.branchBase ⟨t, .sizing⟩ e = .ok (some address)) {base : Option UInt32}
    (found' : Scope.branchBase ⟨{ t with labels := t.labels ++ added }, .encoding⟩ e = .ok base) :
    ∃ address', base = some address' := by
  cases named : e.symbol with
  | none =>
      simp only [branchBase, named] at found found'
      cases found'
      exact ⟨address, Except.ok.inj found⟩
  | some name =>
      cases resolved : t.resolve? name with
      | none => simp [branchBase, named, resolved] at found
      | some l =>
          cases resolved' : { t with labels := t.labels ++ added }.resolve? name with
          | none => simp [branchBase, named, resolved'] at found'
          | some l' =>
              have known : (t.segments.find? fun seg => seg.name == l'.segment).isSome := by
                obtain ⟨seg, member, own⟩ :=
                  List.mem_map.1 (resolve?_owned owned added resolved resolved')
                exact List.find?_isSome.2 ⟨seg, member, by simp [own]⟩
              obtain ⟨seg, place⟩ := Option.isSome_iff_exists.1 known
              simp only [branchBase, named, resolved', SymbolTable.addressOf?, place,
                mapError_eq_ok, map_eq_ok] at found'
              obtain ⟨address', -, rfl⟩ := found'
              exact ⟨address', rfl⟩

theorem distance_sizing (sizing : s.phase = .sizing) (consistent : s.symbols.Consistent) {e : Expr}
    (bounded : ∀ address, s.branchBase e = .ok (some address) → Bounded e) {len : Nat}
    (short : len ≤ 3) : ∃ d, s.distance e len = .ok d := by
  have based : ∃ base, s.branchBase e = .ok base := by
    cases named : e.symbol with
    | none => exact ⟨_, by simp only [branchBase, named]; rfl⟩
    | some name =>
        cases resolved : s.symbols.resolve? name with
        | none => exact ⟨none, by simp only [branchBase, named, resolved, sizing]⟩
        | some l =>
            obtain ⟨-, -, address, -, place, -⟩ := consistent.addressOf?_ok (resolve?_mem resolved)
            exact ⟨some address, by simp [branchBase, named, resolved, place, Except.mapError]⟩
  obtain ⟨base, found⟩ := based
  cases base with
  | none => exact ⟨0, distance_ok.2 ⟨_, consistent.here?_eq, none, found, rfl⟩⟩
  | some address =>
      have far := bounded address found
      refine ⟨_, distance_ok.2 ⟨_, consistent.here?_eq, some address, found, ?_, ?_, rfl⟩⟩
      all_goals
        have below := address.toNat_lt
        have below' :=
          ((s.symbols.currentSegment?.map fun _ => s.symbols.imageCounter).getD 0).toNat_lt
        unfold Bounded at far
        simp only [Range.signed64, Bool.and_eq_true, decide_eq_true_eq]
        omega

/-- In the sizing phase a jump goes anywhere. -/
theorem single_sizing (sizing : s.phase = .sizing) (consistent : s.symbols.Consistent)
    {op : Operation} {e : Expr} (relative : op.isRelative = true)
    (bounded : ∀ address, s.branchBase e = .ok (some address) → Bounded e) :
    ∃ i, s.single op e = .ok i := by
  cases group : op.group with
  | short opcode =>
      obtain ⟨d, measured⟩ := distance_sizing sizing consistent bounded (show 2 ≤ 3 by decide)
      cases near : Range.signed8 d <;>
        simp [single, group, shortBranch, measured, near, sizing, bind, Except.bind, pure,
          Except.pure]
  | near opcode ext =>
      obtain ⟨d, measured⟩ := distance_sizing sizing consistent bounded (show 3 ≤ 3 by decide)
      simp [single, group, nearBranch, measured, sizing, bind, Except.bind, pure, Except.pure]
  | _ => simp [Operation.isRelative, group] at relative

/-! ## Statements -/

theorem judged_farPointer (sizing : s.phase = .sizing) {segment offset : Expr}
    (bounded : Bounded segment) (bounded' : Bounded offset) :
    s.Judged Range.word [segment, offset] (s.farPointer segment offset) :=
  (judged_immediate sizing bounded).bind fun _ _ =>
    (judged_immediate sizing bounded').then_ok fun _ _ => ⟨_, rfl⟩

theorem judged_operands (consistent : t.Consistent) {added : List Label} {op : Operation}
    {sources : List Operand} {o : Operands}
    (resolved : Resolves ⟨{ t with labels := t.labels ++ added }, .encoding⟩ op sources o) :
    Scope.Judged ⟨t, .sizing⟩ Range.word (wordNumbers op sources)
      (Scope.operands ⟨t, .sizing⟩ op sources) := by
  cases resolved with
  | mem dst => exact (judged_memory rfl (bounded_of_memory dst) _).map _
  | imm lone =>
      rename_i e i
      cases relative : op.isRelative with
      | false =>
          rw [single_eq_immediate relative] at lone
          simp only [wordNumbers, relative, operands, single_eq_immediate relative]
          exact (judged_immediate rfl (bounded_of_immediate lone)).map _
      | true =>
          -- The target is bounded because the encoding phase measured a distance to it.
          have bounded : ∀ address, Scope.branchBase ⟨t, .sizing⟩ e = .ok (some address) →
              Bounded e := by
            intro address found
            obtain ⟨base, found'⟩ := branchBase_of_single lone relative
            obtain ⟨_, rfl⟩ := branchBase_added consistent.owned added found found'
            exact bounded_of_known rfl found' lone relative
          obtain ⟨j, sized⟩ := single_sizing (s := ⟨t, .sizing⟩) rfl consistent relative bounded
          simp only [wordNumbers, relative, operands, sized]
          exact judged_ok _
  | far pointer =>
      obtain ⟨i, j, segment, offset, -⟩ := farPointer_ok pointer
      exact judged_farPointer rfl (bounded_of_immediate segment) (bounded_of_immediate offset)
  | pair pointer =>
      obtain ⟨i, j, segment, offset, -⟩ := farPointer_ok pointer
      exact judged_farPointer rfl (bounded_of_immediate segment) (bounded_of_immediate offset)
  | regMem src => exact (judged_memory rfl (bounded_of_memory src) _).map _
  | memReg dst => exact (judged_memory rfl (bounded_of_memory dst) _).map _
  | regImm src => exact (judged_immediate rfl (bounded_of_immediate src)).map _
  | memImm dst src =>
      exact (judged_memory rfl (bounded_of_memory dst) _).bind fun _ _ =>
        (judged_immediate rfl (bounded_of_immediate src)).then_ok fun _ _ => ⟨_, rfl⟩
  | sregMem src => exact (judged_memory rfl (bounded_of_memory src) _).map _
  | memSreg dst => exact (judged_memory rfl (bounded_of_memory dst) _).map _
  | none | reg | sreg | regReg | sregReg | regSreg => exact judged_ok _

/-- Data that another scope over the same segments accepts. -/
theorem judged_dataItem (sizing : s.phase = .sizing) {s' : Scope}
    (room : s.symbols.currentSegment? = s'.symbols.currentSegment?) {width : Width} {before : Nat}
    {item : DataItem} {bytes : List UInt8} (found : s'.dataItem width before item = .ok bytes) :
    s.Judged (fitsField width) (itemNumbers item) (s.dataItem width before item) := by
  cases item with
  | value e => exact judged_dataValue sizing (bounded_of_dataValue found) width
  | string text =>
      have same : s.dataItem width before (.string text) = .ok bytes := found
      rw [same]
      exact judged_ok bytes
  | dup count e =>
      obtain ⟨_, enough, found⟩ := bind_eq_ok.1 found
      have enough' : s.checkRoom (before + count * width.size) = .ok () := by
        rw [← enough]
        simp only [checkRoom, room]
      simp only [dataItem, enough', itemNumbers]
      split at found
      · rename_i never
        simp only [never, ↓reduceIte]
        exact judged_ok _
      · rename_i repeated
        obtain ⟨one, foundOne, -⟩ := bind_eq_ok.1 found
        simp only [repeated, ↓reduceIte]
        exact (judged_dataValue sizing (bounded_of_dataValue foundOne) width).then_ok
          fun _ _ => ⟨_, rfl⟩

theorem judged_dataFrom (sizing : s.phase = .sizing) {s' : Scope}
    (room : s.symbols.currentSegment? = s'.symbols.currentSegment?) {width : Width} {before : Nat}
    {items : List DataItem} {bytes : List UInt8}
    (found : s'.dataFrom width before items = .ok bytes) :
    s.Judged (fitsField width) (items.flatMap itemNumbers) (s.dataFrom width before items) := by
  induction items generalizing before bytes with
  | nil => exact judged_ok _
  | cons item rest ih =>
      obtain ⟨first, foundFirst, found⟩ := bind_eq_ok.1 found
      obtain ⟨others, foundOthers, -⟩ := bind_eq_ok.1 found
      rw [List.flatMap_cons]
      refine (judged_dataItem sizing room foundFirst).bind fun first' foundFirst' => ?_
      rw [dataItem_length foundFirst foundFirst'] at foundOthers
      exact (ih foundOthers).then_ok fun _ _ => ⟨_, rfl⟩

end Scope

/-- **What sizing accepts of what encoding accepts.**  Take a table that was built up from the
empty one, and let the encoding phase know more labels.  A statement that it accepts is accepted
by the sizing phase exactly when the number of every field, jumps apart, fits as it reads then,
and otherwise the error names a number that does not. -/
theorem sizing_accepts_iff {origin : UInt32} {t : SymbolTable}
    (reached : (SymbolTable.ofOrigin origin).Edited t) (added : List Label) :
    let first : Scope := ⟨t, .sizing⟩
    let second : Scope := ⟨{ t with labels := t.labels ++ added }, .encoding⟩
    (∀ op sources i, second.instruction op sources = .ok i →
      first.Judged Range.word (wordNumbers op sources) (first.instruction op sources)) ∧
    (∀ width items bytes, second.data width items = .ok bytes →
      first.Judged (fitsField width) (items.flatMap itemNumbers) (first.data width items)) := by
  intro first second
  have consistent := reached.consistent (SymbolTable.consistent_ofOrigin origin)
  refine ⟨fun op sources i accepted => ?_, fun width items bytes accepted => ?_⟩
  · obtain ⟨o, resolved, -⟩ := map_eq_ok.1 accepted
    exact (Scope.judged_operands consistent (Scope.operands_ok resolved)).map _
  · have room : first.symbols.currentSegment? = second.symbols.currentSegment? := rfl
    exact Scope.judged_dataFrom rfl room accepted

/-- `DW N-129` fits with the placeholder and with N at 1. -/
theorem sizing_accepts_word :
    let t : SymbolTable := { segments := [⟨"C", 0, 0⟩], current := some 0 }
    let items := [DataItem.value { symbol := some "N", value := -129 }]
    (SymbolTable.ofOrigin 0).Edited t ∧
      Scope.data ⟨{ t with labels := t.labels ++ [⟨"N", "C", 1⟩] }, .encoding⟩ .word items =
        .ok [0x80, 0xFF] ∧
      ∃ bytes, Scope.data ⟨t, .sizing⟩ .word items = .ok bytes := by
  intro t items
  have reached : (SymbolTable.ofOrigin 0).Edited t := .once (.addSegment "C") rfl
  have accepted : Scope.data ⟨{ t with labels := t.labels ++ [⟨"N", "C", 1⟩] }, .encoding⟩ .word
      items = .ok [0x80, 0xFF] := by decide
  exact ⟨reached, accepted,
    ((sizing_accepts_iff reached [⟨"N", "C", 1⟩]).2 .word items _ accepted).accepted.2 (by decide)⟩

/-- `DB N-129` with N at 1 is a byte, but the placeholder makes it -129. -/
theorem sizing_refuses_encodable :
    let t : SymbolTable := { segments := [⟨"C", 0, 0⟩], current := some 0 }
    let items := [DataItem.value { symbol := some "N", value := -129 }]
    (SymbolTable.ofOrigin 0).Edited t ∧
      Scope.data ⟨{ t with labels := t.labels ++ [⟨"N", "C", 1⟩] }, .encoding⟩ .byte items =
        .ok [0x80] ∧
      Scope.data ⟨t, .sizing⟩ .byte items = .error (.immediateOutOfRange (-129)) ∧
      assemble "C SEGMENT\nDB N-129\nN: NOP\n" {} = .error ⟨2, .immediateOutOfRange (-129)⟩ := by
  refine ⟨.once (.addSegment "C") rfl, ?_, ?_, ?_⟩ <;> decide +kernel

end Asm86.Assembly
