/-
# Asm86.Proofs.Assembly.Values -- what operands become under two scopes

`Scope.Resolves` says once what the operands of a source line can become.  From it:

* the shape of the machine operands and the number of data bytes are the same under all
  scopes (`Resolves.shape_eq`, `dataFrom_length`);
* operands that one scope can resolve fail under another one only because a name is
  unknown or a value or distance does not fit (`operands_unresolved`, `dataFrom_unresolved`),
  provided that no image address of the second scope leaves its range (`Settled`).
-/
import Asm86.Assembly.Scope
import Asm86.Proofs.Checked
import Asm86.Proofs.Encoding.Shape

namespace Asm86.Assembly

open Asm86.Checked
open Asm86.Machine
open Asm86.Source
open Asm86.Symbols

set_option autoImplicit false

/-- Faults that only the value of a name or number decides. -/
inductive AsmError.Unresolved : AsmError → Prop where
  | undefinedLabel (name : String) : Unresolved (.undefinedLabel name)
  | immediateOutOfRange (value : Int) : Unresolved (.immediateOutOfRange value)
  | branchOutOfRange (target : String) (distance : Int) :
      Unresolved (.branchOutOfRange target distance)

/-- A computation that fails only with such a fault. -/
def OnlyUnresolved {α : Type} (x : Except AsmError α) : Prop := ∀ e, x = .error e → e.Unresolved

theorem onlyUnresolved_ok {α : Type} (a : α) : OnlyUnresolved (.ok a) :=
  fun _ impossible => nomatch impossible

theorem onlyUnresolved_error {α : Type} {e : AsmError} (fault : e.Unresolved) :
    OnlyUnresolved (.error e : Except AsmError α) := by
  intro e' same
  cases same
  exact fault

theorem OnlyUnresolved.bind {α β : Type} {x : Except AsmError α} {f : α → Except AsmError β}
    (first : OnlyUnresolved x) (second : ∀ a, x = .ok a → OnlyUnresolved (f a)) :
    OnlyUnresolved (x >>= f) := by
  cases x with
  | error e => exact onlyUnresolved_error (first e rfl)
  | ok a => exact second a rfl

theorem OnlyUnresolved.map {α β : Type} {x : Except AsmError α} (f : α → β)
    (first : OnlyUnresolved x) : OnlyUnresolved (x.map f) := by
  cases x with
  | error e => exact onlyUnresolved_error (first e rfl)
  | ok a => exact onlyUnresolved_ok _

namespace Scope

/-! ## Values -/

theorem value_plain (s : Scope) {e : Expr} (plain : e.symbol = none) :
    s.value e = .ok ⟨e.value, false⟩ := by
  simp [value, plain]

/-- A value is symbolic exactly when its expression has a name. -/
theorem value_symbolic {s : Scope} {e : Expr} {v : Value} (found : s.value e = .ok v) :
    v.symbolic = e.symbol.isSome := by
  unfold value at found
  split at found
  · cases found
    simp [*]
  · split at found
    · obtain ⟨_, -, rfl⟩ := map_eq_ok.1 found
      simp [*]
    · cases found
      simp [*]
    · cases found

theorem offsetFrom_ok {base v : Int} {e : Expr} :
    offsetFrom base e = .ok v ↔ Range.signed64 (base + e.value) = true ∧ v = base + e.value := by
  rw [← Range.checked64_some]
  unfold offsetFrom
  cases Range.checked64 (base + e.value) <;> simp

theorem wordOf_ok {v : Int} {w : Int16} :
    wordOf v = .ok w ↔ Range.word v = true ∧ w = Int16.ofInt v := by
  cases inside : Range.word v <;> simp [wordOf, inside, eq_comm]

theorem wordOf_error {v : Int} {e : AsmError} :
    wordOf v = .error e ↔ Range.word v = false ∧ e = .immediateOutOfRange v := by
  cases inside : Range.word v <;> simp [wordOf, inside, eq_comm]

theorem offsetFrom_unresolved (base : Int) (e : Expr) : OnlyUnresolved (offsetFrom base e) := by
  unfold offsetFrom
  split
  · exact onlyUnresolved_ok _
  · exact onlyUnresolved_error (.immediateOutOfRange _)

theorem wordOf_unresolved (value : Int) : OnlyUnresolved (wordOf value) := by
  unfold wordOf
  split
  · exact onlyUnresolved_ok _
  · exact onlyUnresolved_error (.immediateOutOfRange _)

theorem value_unresolved (s : Scope) (e : Expr) : OnlyUnresolved (s.value e) := by
  unfold value
  split
  · exact onlyUnresolved_ok _
  · split
    · exact (offsetFrom_unresolved _ _).map _
    · exact onlyUnresolved_ok _
    · exact onlyUnresolved_error (.undefinedLabel _)

theorem immediate_unresolved (s : Scope) (e : Expr) : OnlyUnresolved (s.immediate e) := by
  refine (value_unresolved s e).bind fun v _ => (wordOf_unresolved _).bind fun w _ => ?_
  split <;> exact onlyUnresolved_ok _

theorem memory_unresolved (s : Scope) (m : MemoryRef) (width : Width) :
    OnlyUnresolved (s.memory m width) := by
  refine (value_unresolved s m.disp).bind fun v _ => (wordOf_unresolved _).bind fun w _ => ?_
  dsimp only
  split <;> exact onlyUnresolved_ok _

theorem immediate_shape {s t : Scope} {e : Expr} {i j : Immediate} (left : s.immediate e = .ok i)
    (right : t.immediate e = .ok j) : i.shape = j.shape := by
  cases named : e.symbol with
  | none =>
      have same : s.immediate e = t.immediate e := by
        simp only [immediate, value_plain _ named]
      rw [same, right] at left
      cases left
      rfl
  | some name =>
      -- A label makes a symbolic word, and the shape of one forgets its value.
      have fixed : ∀ {u : Scope} {k : Immediate}, u.immediate e = .ok k → k.shape = ⟨0, .word, true⟩ := by
        intro u k found
        simp only [immediate, bind_eq_ok] at found
        obtain ⟨v, valued, w, -, result⟩ := found
        have symbolic := value_symbolic valued
        simp only [symbolic, named, Option.isSome_some, ↓reduceIte, pure, Except.pure] at result
        cases result
        rfl
      rw [fixed left, fixed right]

theorem memory_shape {s t : Scope} {m : MemoryRef} {width : Width} {x y : Memory}
    (left : s.memory m width = .ok x) (right : t.memory m width = .ok y) : x.shape = y.shape := by
  simp only [memory, bind_eq_ok] at left right
  obtain ⟨v, leftValue, d, -, left⟩ := left
  obtain ⟨v', rightValue, d', -, right⟩ := right
  have symbolic : v.symbolic = v'.symbolic := by
    rw [value_symbolic leftValue, value_symbolic rightValue]
  -- The displacement mode looks at the value only when no label contributed to it.
  have mode : ∀ rm, dispMode v rm = dispMode v' rm := by
    intro rm
    cases named : m.disp.symbol with
    | none =>
        rw [value_plain _ named] at leftValue rightValue
        cases leftValue
        cases rightValue
        rfl
    | some name =>
        have known : v.symbolic = true := by rw [value_symbolic leftValue, named]; rfl
        simp [dispMode, known, ← symbolic]
  cases registers : rmOf? m.base m.index with
  | none =>
      simp only [registers] at left right
      cases left
      cases right
      simp [Memory.shape, Memory.direct, symbolic]
  | some rm =>
      simp only [registers] at left right
      cases left
      cases right
      simp [Memory.shape, Memory.based, symbolic, mode]

/-! ## Jumps -/

/-- No image address of the scope leaves its range. -/
structure Settled (s : Scope) : Prop where
  here : ∃ address, s.symbols.here? = .ok address
  labels : ∀ l ∈ s.symbols.labels, ∃ address, s.symbols.addressOf? l = .ok address

theorem resolve?_mem {t : SymbolTable} {name : String} {l : Label} (found : t.resolve? name = some l) :
    l ∈ t.labels := by
  unfold SymbolTable.resolve? at found
  rcases Option.or_eq_some_iff.1 found with near | ⟨-, far⟩
  · obtain ⟨_, -, near⟩ := Option.bind_eq_some_iff.1 near
    exact List.mem_of_find?_eq_some near
  · exact List.mem_of_find?_eq_some far

theorem branchBase_unresolved {s : Scope} (settled : s.Settled) (e : Expr) :
    OnlyUnresolved (s.branchBase e) := by
  unfold branchBase
  split
  · exact onlyUnresolved_ok _
  · split
    · rename_i l found
      obtain ⟨address, known⟩ := settled.labels l (resolve?_mem found)
      rw [known]
      exact onlyUnresolved_ok _
    · exact onlyUnresolved_ok _
    · exact onlyUnresolved_error (.undefinedLabel _)

theorem distance_unresolved {s : Scope} (settled : s.Settled) (e : Expr) (len : Nat) :
    OnlyUnresolved (s.distance e len) := by
  obtain ⟨address, here⟩ := settled.here
  unfold distance
  rw [here]
  refine (onlyUnresolved_ok _).bind fun at_ _ => (branchBase_unresolved settled e).bind fun base _ => ?_
  split
  · exact onlyUnresolved_ok _
  · refine (offsetFrom_unresolved _ _).bind fun target _ => ?_
    split
    · exact onlyUnresolved_ok _
    · exact onlyUnresolved_error (.immediateOutOfRange _)

/-- A distance runs from the end of the jump to its target, as long as the target is known; no
sum on the way leaves 64 bits. -/
theorem distance_ok {s : Scope} {e : Expr} {len : Nat} {d : Int} :
    s.distance e len = .ok d ↔
      ∃ here, s.symbols.here? = .ok here ∧ ∃ base, s.branchBase e = .ok base ∧
        base.elim (d = 0) fun address =>
          Range.signed64 (address.toNat + e.value) = true ∧ Range.signed64 d = true ∧
            d = address.toNat + e.value - ((here.getD 0).toNat + len : Nat) := by
  unfold distance
  simp only [bind_eq_ok, mapError_eq_ok]
  refine exists_congr fun here => and_congr_right fun _ => exists_congr fun base =>
    and_congr_right fun _ => ?_
  cases base with
  | none =>
      simp only [pure, Except.pure, Except.ok.injEq, Option.elim_none]
      exact eq_comm
  | some address =>
      simp only [bind_eq_ok, offsetFrom_ok, Option.elim_some]
      constructor
      · rintro ⟨target, ⟨inside, rfl⟩, found⟩
        cases difference : Range.checked64
            (address.toNat + e.value - ((here.getD 0).toNat + len : Nat)) with
        | none =>
            rw [difference] at found
            cases found
        | some d' =>
            rw [difference] at found
            cases found
            obtain ⟨inRange, rfl⟩ := Range.checked64_some.1 difference
            exact ⟨inside, inRange, rfl⟩
      · rintro ⟨inside, inRange, rfl⟩
        refine ⟨_, ⟨inside, rfl⟩, ?_⟩
        rw [Range.checked64_some.2 ⟨inRange, rfl⟩]
        rfl

theorem single_unresolved {s : Scope} (settled : s.Settled) (op : Operation) (e : Expr) :
    OnlyUnresolved (s.single op e) := by
  unfold single
  split
  · refine (distance_unresolved settled e 2).bind fun d _ => ?_
    split
    · exact onlyUnresolved_ok _
    · split
      · exact onlyUnresolved_ok _
      · exact onlyUnresolved_error (.branchOutOfRange _ _)
  · refine (distance_unresolved settled e 3).bind fun d _ => ?_
    split
    · exact onlyUnresolved_ok _
    · exact onlyUnresolved_error (.branchOutOfRange _ _)
  · exact immediate_unresolved s e

/-- Jumps have a byte or a symbolic word, whatever the distance. -/
theorem shortBranch_ok {s : Scope} {e : Expr} {i : Immediate} (found : s.shortBranch e = .ok i) :
    i.width = .byte ∧ i.symbolic = false := by
  simp only [shortBranch, bind_eq_ok] at found
  obtain ⟨d, -, found⟩ := found
  split at found
  · cases found
    exact ⟨rfl, rfl⟩
  · split at found
    · cases found
      exact ⟨rfl, rfl⟩
    · cases found

theorem nearBranch_ok {s : Scope} {e : Expr} {i : Immediate} (found : s.nearBranch e = .ok i) :
    i.width = .word ∧ i.symbolic = true := by
  simp only [nearBranch, bind_eq_ok] at found
  obtain ⟨d, -, found⟩ := found
  split at found
  · cases found
    exact ⟨rfl, rfl⟩
  · cases found

theorem single_shape {s t : Scope} {op : Operation} {e : Expr} {i j : Immediate}
    (left : s.single op e = .ok i) (right : t.single op e = .ok j) :
    i.loneShape op.group = j.loneShape op.group := by
  cases group : op.group with
  | short opcode =>
      simp only [single, group] at left right
      obtain ⟨leftWidth, leftSymbolic⟩ := shortBranch_ok left
      obtain ⟨rightWidth, rightSymbolic⟩ := shortBranch_ok right
      simp [Immediate.loneShape, leftWidth, leftSymbolic, rightWidth, rightSymbolic]
  | near relative ext =>
      simp only [single, group] at left right
      obtain ⟨leftWidth, leftSymbolic⟩ := nearBranch_ok left
      obtain ⟨rightWidth, rightSymbolic⟩ := nearBranch_ok right
      simp [Immediate.loneShape, Immediate.shape, leftWidth, leftSymbolic, rightWidth, rightSymbolic]
  | _ =>
      simp only [single, group] at left right
      exact immediate_shape left right

theorem single_eq_immediate {s : Scope} {op : Operation} (plain : op.isRelative = false) (e : Expr) :
    s.single op e = s.immediate e := by
  cases group : op.group with
  | short opcode => simp [Operation.isRelative, group] at plain
  | near relative ext => simp [Operation.isRelative, group] at plain
  | _ => simp only [single, group]

/-! ## Instructions -/

/-- What the operands of a source line become. -/
inductive Resolves (s : Scope) (op : Operation) : List Operand → Operands → Prop where
  | none : Resolves s op [] .none
  | reg (r : Register) : Resolves s op [.reg r] (.reg r)
  | mem {m : MemoryRef} {x : Memory} (dst : s.memory m (defaultWidth op) = .ok x) :
      Resolves s op [.mem m] (.mem x)
  | imm {e : Expr} {i : Immediate} (lone : s.single op e = .ok i) : Resolves s op [.imm e] (.imm i)
  | sreg (r : SegReg) : Resolves s op [.sreg r] (.sreg r)
  | far {segment offset : Expr} {o : Operands} (pointer : s.farPointer segment offset = .ok o) :
      Resolves s op [.far segment offset] o
  | pair {segment offset : Expr} {o : Operands} (pointer : s.farPointer segment offset = .ok o) :
      Resolves s op [.imm segment, .imm offset] o
  | regReg (a b : Register) : Resolves s op [.reg a, .reg b] (.regReg a b)
  | regMem {r : Register} {m : MemoryRef} {x : Memory} (src : s.memory m (sourceWidth op r) = .ok x) :
      Resolves s op [.reg r, .mem m] (.regMem r x)
  | memReg {r : Register} {m : MemoryRef} {x : Memory} (dst : s.memory m (targetWidth op r) = .ok x) :
      Resolves s op [.mem m, .reg r] (.memReg x r)
  | regImm {r : Register} {e : Expr} {i : Immediate} (src : s.immediate e = .ok i) :
      Resolves s op [.reg r, .imm e] (.regImm r i)
  | memImm {m : MemoryRef} {e : Expr} {x : Memory} {i : Immediate}
      (dst : s.memory m (defaultWidth op) = .ok x) (src : s.immediate e = .ok i) :
      Resolves s op [.mem m, .imm e] (.memImm x i)
  | sregReg (d : SegReg) (r : Register) : Resolves s op [.sreg d, .reg r] (.sregReg d r)
  | sregMem {d : SegReg} {m : MemoryRef} {x : Memory} (src : s.memory m .word = .ok x) :
      Resolves s op [.sreg d, .mem m] (.sregMem d x)
  | regSreg (r : Register) (d : SegReg) : Resolves s op [.reg r, .sreg d] (.regSreg r d)
  | memSreg {m : MemoryRef} {d : SegReg} {x : Memory} (dst : s.memory m .word = .ok x) :
      Resolves s op [.mem m, .sreg d] (.memSreg x d)

theorem operands_ok {s : Scope} {op : Operation} {sources : List Operand} {o : Operands}
    (resolved : s.operands op sources = .ok o) : Resolves s op sources o := by
  unfold operands at resolved
  split at resolved
  · cases resolved
    exact .none
  · cases resolved
    exact .reg _
  · obtain ⟨x, found, rfl⟩ := map_eq_ok.1 resolved
    exact .mem found
  · obtain ⟨i, found, rfl⟩ := map_eq_ok.1 resolved
    exact .imm found
  · cases resolved
    exact .sreg _
  · exact .far resolved
  · exact .pair resolved
  · cases resolved
    exact .regReg _ _
  · obtain ⟨x, found, rfl⟩ := map_eq_ok.1 resolved
    exact .regMem found
  · obtain ⟨x, found, rfl⟩ := map_eq_ok.1 resolved
    exact .memReg found
  · obtain ⟨i, found, rfl⟩ := map_eq_ok.1 resolved
    exact .regImm found
  · obtain ⟨x, dst, resolved⟩ := bind_eq_ok.1 resolved
    obtain ⟨i, src, resolved⟩ := bind_eq_ok.1 resolved
    cases resolved
    exact .memImm dst src
  · cases resolved
    exact .sregReg _ _
  · obtain ⟨x, found, rfl⟩ := map_eq_ok.1 resolved
    exact .sregMem found
  · cases resolved
    exact .regSreg _ _
  · obtain ⟨x, found, rfl⟩ := map_eq_ok.1 resolved
    exact .memSreg found
  · cases resolved

/-- Operands look at a scope through the values of their numbers, and through the distance of a
jump. -/
theorem operands_congr {s t : Scope} (values : ∀ e, s.value e = t.value e) {op : Operation}
    {sources : List Operand} (lone : ∀ e, sources = [.imm e] → s.single op e = t.single op e) :
    s.operands op sources = t.operands op sources := by
  have immediates : ∀ e, s.immediate e = t.immediate e := by
    intro e
    simp only [immediate, values]
  have memories : ∀ m width, s.memory m width = t.memory m width := by
    intro m width
    simp only [memory, values]
  have pointers : ∀ segment offset, s.farPointer segment offset = t.farPointer segment offset := by
    intro segment offset
    simp only [farPointer, immediates]
  unfold operands
  split
  case h_4 => rw [lone _ rfl]
  all_goals simp only [immediates, memories, pointers]

theorem farPointer_ok {s : Scope} {segment offset : Expr} {o : Operands}
    (found : s.farPointer segment offset = .ok o) :
    ∃ i j, s.immediate segment = .ok i ∧ s.immediate offset = .ok j ∧
      o = .immImm { i with width := .word } { j with width := .word } := by
  obtain ⟨i, first, found⟩ := bind_eq_ok.1 found
  obtain ⟨j, second, found⟩ := bind_eq_ok.1 found
  cases found
  exact ⟨i, j, first, second, rfl⟩

theorem farPointer_shape {s t : Scope} {op : Operation} {segment offset : Expr} {a b : Operands}
    (left : s.farPointer segment offset = .ok a) (right : t.farPointer segment offset = .ok b) :
    a.shape op.group = b.shape op.group := by
  -- The word width of a pointer's parts is set after their values are known.
  have widened : ∀ {i j : Immediate}, i.shape = j.shape →
      ({ i with width := .word } : Immediate).shape = ({ j with width := .word } : Immediate).shape := by
    intro i j same
    cases i
    cases j
    simp only [Immediate.shape] at same ⊢
    split at same <;> split at same <;> simp_all
  obtain ⟨i, j, leftSegment, leftOffset, rfl⟩ := farPointer_ok left
  obtain ⟨i', j', rightSegment, rightOffset, rfl⟩ := farPointer_ok right
  simp only [Operands.shape, widened (immediate_shape leftSegment rightSegment),
    widened (immediate_shape leftOffset rightOffset)]

/-- **The shape of the machine operands is the same under all scopes.** -/
theorem Resolves.shape_eq {s t : Scope} {op : Operation} {sources : List Operand} {a b : Operands}
    (left : Resolves s op sources a) (right : Resolves t op sources b) :
    a.shape op.group = b.shape op.group := by
  cases left with
  | none => cases right; rfl
  | reg r => cases right; rfl
  | sreg r => cases right; rfl
  | regReg x y => cases right; rfl
  | sregReg d r => cases right; rfl
  | regSreg r d => cases right; rfl
  | mem dst =>
      cases right with
      | mem dst' => simp only [Operands.shape, memory_shape dst dst']
  | imm lone =>
      cases right with
      | imm lone' => simp only [Operands.shape, single_shape lone lone']
  | far pointer =>
      cases right with
      | far pointer' => exact farPointer_shape pointer pointer'
  | pair pointer =>
      cases right with
      | pair pointer' => exact farPointer_shape pointer pointer'
  | regMem src =>
      cases right with
      | regMem src' => simp only [Operands.shape, memory_shape src src']
  | memReg dst =>
      cases right with
      | memReg dst' => simp only [Operands.shape, memory_shape dst dst']
  | regImm src =>
      cases right with
      | regImm src' => simp only [Operands.shape, immediate_shape src src']
  | memImm dst src =>
      cases right with
      | memImm dst' src' =>
          simp only [Operands.shape, memory_shape dst dst', immediate_shape src src']
  | sregMem src =>
      cases right with
      | sregMem src' => simp only [Operands.shape, memory_shape src src']
  | memSreg dst =>
      cases right with
      | memSreg dst' => simp only [Operands.shape, memory_shape dst dst']

theorem farPointer_unresolved (s : Scope) (segment offset : Expr) :
    OnlyUnresolved (s.farPointer segment offset) :=
  (immediate_unresolved s segment).bind fun _ _ =>
    (immediate_unresolved s offset).bind fun _ _ => onlyUnresolved_ok _

/-- Operands that some scope resolves fail under a settled one only through their values. -/
theorem operands_unresolved {s t : Scope} (settled : t.Settled) {op : Operation}
    {sources : List Operand} {o : Operands} (resolved : Resolves s op sources o) :
    OnlyUnresolved (t.operands op sources) := by
  cases resolved with
  | mem => exact (memory_unresolved t _ _).map _
  | imm => exact (single_unresolved settled op _).map _
  | far => exact farPointer_unresolved t _ _
  | pair => exact farPointer_unresolved t _ _
  | regMem => exact (memory_unresolved t _ _).map _
  | memReg => exact (memory_unresolved t _ _).map _
  | regImm => exact (immediate_unresolved t _).map _
  | memImm =>
      exact (memory_unresolved t _ _).bind fun _ _ =>
        (immediate_unresolved t _).bind fun _ _ => onlyUnresolved_ok _
  | sregMem => exact (memory_unresolved t _ _).map _
  | memSreg => exact (memory_unresolved t _ _).map _
  | _ => exact onlyUnresolved_ok _

/-! ## Data -/

theorem dataValue_length {s : Scope} {width : Width} {e : Expr} {bytes : List UInt8}
    (found : s.dataValue width e = .ok bytes) : bytes.length = if width = .byte then 1 else 2 := by
  obtain ⟨v, -, found⟩ := bind_eq_ok.1 found
  split at found
  · split at found
    · cases found
      simp [*]
    · cases found
  · obtain ⟨w, -, found⟩ := bind_eq_ok.1 found
    cases found
    simp [*]

theorem dataValue_unresolved (s : Scope) (width : Width) (e : Expr) :
    OnlyUnresolved (s.dataValue width e) := by
  refine (value_unresolved s e).bind fun v _ => ?_
  split
  · split
    · exact onlyUnresolved_ok _
    · exact onlyUnresolved_error (.immediateOutOfRange _)
  · exact (wordOf_unresolved _).bind fun _ _ => onlyUnresolved_ok _

theorem dataItem_length {s t : Scope} {width : Width} {before : Nat} {item : DataItem}
    {bytes bytes' : List UInt8} (left : s.dataItem width before item = .ok bytes)
    (right : t.dataItem width before item = .ok bytes') : bytes.length = bytes'.length := by
  cases item with
  | value e => rw [dataValue_length left, dataValue_length right]
  | string text =>
      have same : s.dataItem width before (.string text) = t.dataItem width before (.string text) := rfl
      rw [same, right] at left
      cases left
      rfl
  | dup count e =>
      obtain ⟨-, -, left⟩ := bind_eq_ok.1 left
      obtain ⟨-, -, right⟩ := bind_eq_ok.1 right
      split at left
      · rename_i zero
        rw [if_pos zero] at right
        cases left
        cases right
        rfl
      · rename_i positive
        rw [if_neg positive] at right
        obtain ⟨one, leftOne, left⟩ := bind_eq_ok.1 left
        obtain ⟨one', rightOne, right⟩ := bind_eq_ok.1 right
        cases left
        cases right
        simp [dataValue_length leftOne, dataValue_length rightOne]

/-- An item that one scope accepts fails under another with as much room only through
its value. -/
theorem dataItem_unresolved {s t : Scope}
    (room : s.symbols.currentSegment? = t.symbols.currentSegment?) {width : Width} {before : Nat}
    {item : DataItem} {bytes : List UInt8} (found : s.dataItem width before item = .ok bytes) :
    OnlyUnresolved (t.dataItem width before item) := by
  cases item with
  | value e => exact dataValue_unresolved t width e
  | string text =>
      have same : t.dataItem width before (.string text) = .ok bytes := found
      rw [same]
      exact onlyUnresolved_ok _
  | dup count e =>
      obtain ⟨_, fits, -⟩ := bind_eq_ok.1 found
      have sameRoom : t.checkRoom (before + count * width.size) = .ok () := by
        rw [← fits]
        simp only [checkRoom, room]
      refine OnlyUnresolved.bind (sameRoom ▸ onlyUnresolved_ok _) fun _ _ => ?_
      split
      · exact onlyUnresolved_ok _
      · exact (dataValue_unresolved t width e).bind fun _ _ => onlyUnresolved_ok _

/-- **The number of data bytes is the same under all scopes.** -/
theorem dataFrom_length {s t : Scope} {width : Width} {before : Nat} {items : List DataItem}
    {bytes bytes' : List UInt8} (left : s.dataFrom width before items = .ok bytes)
    (right : t.dataFrom width before items = .ok bytes') : bytes.length = bytes'.length := by
  induction items generalizing before bytes bytes' with
  | nil =>
      cases left
      cases right
      rfl
  | cons item rest ih =>
      obtain ⟨first, leftFirst, left⟩ := bind_eq_ok.1 left
      obtain ⟨first', rightFirst, right⟩ := bind_eq_ok.1 right
      obtain ⟨others, leftOthers, left⟩ := bind_eq_ok.1 left
      obtain ⟨others', rightOthers, right⟩ := bind_eq_ok.1 right
      cases left
      cases right
      have same := dataItem_length leftFirst rightFirst
      rw [← same] at rightOthers
      rw [List.length_append, List.length_append, same, ih leftOthers rightOthers]

theorem dataFrom_unresolved {s t : Scope}
    (room : s.symbols.currentSegment? = t.symbols.currentSegment?) {width : Width} {before : Nat}
    {items : List DataItem} {bytes : List UInt8} (found : s.dataFrom width before items = .ok bytes) :
    OnlyUnresolved (t.dataFrom width before items) := by
  induction items generalizing before bytes with
  | nil => exact onlyUnresolved_ok _
  | cons item rest ih =>
      obtain ⟨first, foundFirst, found⟩ := bind_eq_ok.1 found
      obtain ⟨others, foundOthers, -⟩ := bind_eq_ok.1 found
      refine (dataItem_unresolved room foundFirst).bind fun first' foundFirst' => ?_
      rw [dataItem_length foundFirst foundFirst'] at foundOthers
      exact (ih foundOthers).bind fun _ _ => onlyUnresolved_ok _

end Scope

end Asm86.Assembly
