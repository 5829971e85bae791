/-
# Asm86.Proofs.Symbols.Stream -- blocks one behind the other in a stream

The first four bytes of a stream announce how long its first block is.  Receiving a block takes
so many bytes off the stream and reads them as a whole block (`receive_whole`); a stream that
does not have them is used up, and nothing is received (`receive_headless`, `receive_short`).
So the bytes behind a block stay in the stream whatever the block holds, and blocks that were
written one behind the other are received one after the other (`receiveMany_blocks`).
-/
import Asm86.Proofs.LittleEndian
import Asm86.Proofs.Symbols.Canonical

namespace Asm86.Symbols.Snapshot

open Asm86.Checked

set_option autoImplicit false

/-- The length of the first block of a stream, by the number of records in its first four
bytes. -/
def announced (stream : List UInt8) : Nat := 4 + 247 * Bytes.unsignedValue (stream.take 4)

/-- Receive so many blocks. -/
def receiveMany : Nat → EStateM TransferError (List UInt8) (List Snapshot)
  | 0 => return []
  | n + 1 => do
      let first ← receive
      let others ← receiveMany n
      return first :: others

/-! ## One block -/

/-- The four bytes are read as a number, low byte first. -/
theorem announced_eq (b0 b1 b2 b3 : UInt8) (body : List UInt8) :
    announced (b0 :: b1 :: b2 :: b3 :: body) =
      4 + (Bytes.toDword b0 b1 b2 b3).toNat * recordSize := by
  have size : recordSize = 247 := rfl
  simp only [announced, List.take_succ_cons, List.take_zero, Bytes.unsignedValue,
    Bytes.toNat_toDword, size]
  omega

theorem exists_head {stream : List UInt8} (enough : 4 ≤ stream.length) :
    ∃ b0 b1 b2 b3 body, stream = b0 :: b1 :: b2 :: b3 :: body := by
  rcases stream with _ | ⟨b0, _ | ⟨b1, _ | ⟨b2, _ | ⟨b3, body⟩⟩⟩⟩
  · simp at enough
  · simp at enough
  · simp at enough
  · simp at enough
  · exact ⟨b0, b1, b2, b3, body, rfl⟩

theorem receive_headless {stream : List UInt8} (short : stream.length < 4) :
    receive stream = .error (.stream .endOfInput) [] := by
  rcases stream with _ | ⟨b0, _ | ⟨b1, _ | ⟨b2, _ | ⟨b3, body⟩⟩⟩⟩
  · rfl
  · rfl
  · rfl
  · rfl
  · simp only [List.length_cons] at short
    omega

/-- What is received of a stream that starts with a number of records. -/
theorem receive_cons (b0 b1 b2 b3 : UInt8) (body : List UInt8) :
    let needed := (Bytes.toDword b0 b1 b2 b3).toNat * recordSize
    receive (b0 :: b1 :: b2 :: b3 :: body) =
      if body.length < needed then .error (.truncated (4 + body.length)) []
      else (ofExcept (ofBytes (b0 :: b1 :: b2 :: b3 :: body.take needed)) :
        EStateM TransferError (List UInt8) Snapshot) (body.drop needed) := by
  intro needed
  have bytes : receive (b0 :: b1 :: b2 :: b3 :: body) =
      (if (body.take needed).length < needed then
        throw (.truncated (4 + (body.take needed).length))
      else ofExcept (ofBytes (b0 :: b1 :: b2 :: b3 :: body.take needed)) :
        EStateM TransferError (List UInt8) Snapshot) (body.drop needed) := rfl
  rw [bytes]
  by_cases short : body.length < needed
  · have all : body.take needed = body := List.take_of_length_le (by omega)
    have none : body.drop needed = [] := List.drop_of_length_le (by omega)
    rw [all, none, if_pos short, if_pos short]
    rfl
  · have full : ¬ (body.take needed).length < needed := by
      rw [List.length_take]
      omega
    rw [if_neg full, if_neg short]

theorem receive_short {stream : List UInt8} (head : 4 ≤ stream.length)
    (short : stream.length < announced stream) :
    receive stream = .error (.truncated stream.length) [] := by
  obtain ⟨b0, b1, b2, b3, body, rfl⟩ := exists_head head
  rw [announced_eq] at short
  simp only [List.length_cons] at short ⊢
  have less : body.length < (Bytes.toDword b0 b1 b2 b3).toNat * recordSize := by omega
  rw [receive_cons, if_pos less, Nat.add_comm 4]

/-- A block that is there as a whole is taken off and read. -/
theorem receive_whole {stream : List UInt8} (enough : announced stream ≤ stream.length) :
    receive stream =
      (ofExcept (ofBytes (stream.take (announced stream))) :
        EStateM TransferError (List UInt8) Snapshot) (stream.drop (announced stream)) := by
  have head : 4 ≤ stream.length := by
    unfold announced at enough
    omega
  obtain ⟨b0, b1, b2, b3, body, rfl⟩ := exists_head head
  rw [announced_eq] at enough ⊢
  simp only [List.length_cons] at enough
  have full : ¬ body.length < (Bytes.toDword b0 b1 b2 b3).toNat * recordSize := by omega
  rw [receive_cons, if_neg full, Nat.add_comm 4]
  simp only [List.take_succ_cons, List.drop_succ_cons]

theorem ofExcept_eq_ok {x : Except TransferError Snapshot} {stream rest : List UInt8}
    {s : Snapshot} :
    (ofExcept x : EStateM TransferError (List UInt8) Snapshot) stream = .ok s rest ↔
      x = .ok s ∧ rest = stream := by
  cases x with
  | error e => exact ⟨fun same => (nomatch same), fun same => (nomatch same.1)⟩
  | ok a =>
      constructor
      · intro same
        cases same
        exact ⟨rfl, rfl⟩
      · rintro ⟨same, rfl⟩
        cases same
        rfl

theorem ofExcept_eq_error {x : Except TransferError Snapshot} {stream rest : List UInt8}
    {e : TransferError} :
    (ofExcept x : EStateM TransferError (List UInt8) Snapshot) stream = .error e rest ↔
      x = .error e ∧ rest = stream := by
  cases x with
  | ok a => exact ⟨fun same => (nomatch same), fun same => (nomatch same.1)⟩
  | error e' =>
      constructor
      · intro same
        cases same
        exact ⟨rfl, rfl⟩
      · rintro ⟨same, rfl⟩
        cases same
        rfl

/-- **Receiving is reading the first block as a whole**, and leaves what stands behind it. -/
theorem receive_eq_ok {stream rest : List UInt8} {s : Snapshot} :
    receive stream = .ok s rest ↔
      announced stream ≤ stream.length ∧ ofBytes (stream.take (announced stream)) = .ok s ∧
        rest = stream.drop (announced stream) := by
  by_cases enough : announced stream ≤ stream.length
  · rw [receive_whole enough, ofExcept_eq_ok]
    exact ⟨fun read => ⟨enough, read⟩, And.right⟩
  · have failed : ∃ e, receive stream = .error e [] := by
      by_cases head : 4 ≤ stream.length
      · exact ⟨_, receive_short head (by omega)⟩
      · exact ⟨_, receive_headless (by omega)⟩
    obtain ⟨e, failed⟩ := failed
    rw [failed]
    exact ⟨fun impossible => (nomatch impossible), fun read => absurd read.1 enough⟩

/-- Nothing behind the announced block is taken, whether it can be read or not. -/
theorem receive_error {stream rest : List UInt8} {e : TransferError}
    (failed : receive stream = .error e rest) : rest = stream.drop (announced stream) := by
  by_cases enough : announced stream ≤ stream.length
  · rw [receive_whole enough] at failed
    exact (ofExcept_eq_error.1 failed).2
  · rw [List.drop_of_length_le (by omega)]
    by_cases head : 4 ≤ stream.length
    · rw [receive_short head (by omega)] at failed
      cases failed
      rfl
    · rw [receive_headless (by omega)] at failed
      cases failed
      rfl

theorem read_eq_ok {stream rest : List UInt8} {s : Snapshot} :
    read stream = .ok (s, rest) ↔ receive stream = .ok s rest := by
  unfold read
  cases receive stream with
  | ok s' rest' =>
      constructor
      · intro same
        cases same
        rfl
      · intro same
        cases same
        rfl
  | error e rest' => exact ⟨fun same => (nomatch same), fun same => (nomatch same)⟩

/-! ## Blocks that were written -/

/-- A block announces its own length. -/
theorem Transferable.announced_block {s : Snapshot} (fits : s.Transferable) (rest : List UInt8) :
    announced (s.block ++ rest) = s.block.length := by
  have count : (UInt32.ofNat s.length).toNat = s.length := UInt32.toNat_ofNat_of_lt' fits.few
  have size := length_records fits.named
  simp only [block, Bytes.ofDword, List.cons_append, List.nil_append, announced_eq,
    Bytes.toDword_ofDword, count, List.length_cons, size]
  omega

theorem Transferable.receive_block {s : Snapshot} (fits : s.Transferable) (rest : List UInt8) :
    receive (s.block ++ rest) = .ok s rest := by
  rw [receive_eq_ok, fits.announced_block, List.take_left, List.drop_left, List.length_append]
  exact ⟨Nat.le_add_right _ _, fits.toBytes_ofBytes.2, rfl⟩

/-- A block is taken off the front of a stream, whatever follows it. -/
theorem Transferable.read_block {s : Snapshot} (fits : s.Transferable) (rest : List UInt8) :
    read (s.block ++ rest) = .ok (s, rest) :=
  read_eq_ok.2 (fits.receive_block rest)

theorem mapM_toBytes {snapshots : List Snapshot} (fits : ∀ s ∈ snapshots, s.Transferable) :
    snapshots.mapM toBytes = .ok (snapshots.map block) := by
  rw [mapM_eq_ok, List.forall₂_map_right_iff]
  exact List.forall₂_same.2 fun s member => (fits s member).toBytes_ofBytes.1

theorem receiveMany_blocks {snapshots : List Snapshot} (fits : ∀ s ∈ snapshots, s.Transferable)
    (tail : List UInt8) :
    receiveMany snapshots.length ((snapshots.map block).flatten ++ tail) = .ok snapshots tail := by
  induction snapshots with
  | nil => rfl
  | cons s rest ih =>
      obtain ⟨first, others⟩ := List.forall_mem_cons.1 fits
      have one := first.receive_block ((rest.map block).flatten ++ tail)
      show EStateM.bind _ _ _ = _
      rw [List.map_cons, List.flatten_cons, List.append_assoc, EStateM.bind, one]
      show EStateM.bind _ _ _ = _
      rw [EStateM.bind, ih others]
      rfl

/-- **Blocks end where they say they do.**  Snapshots written one behind the other are received in
order, and what follows them is left.  Of any stream, exactly the bytes that its head announces
are read as a block, if they are all there, and none behind them are taken in any case. -/
theorem blocks_end_themselves :
    (∀ (snapshots : List Snapshot) (tail : List UInt8), (∀ s ∈ snapshots, s.Transferable) →
      ∃ blocks, snapshots.mapM toBytes = .ok blocks ∧
        receiveMany snapshots.length (blocks.flatten ++ tail) = .ok snapshots tail) ∧
      (∀ (stream rest : List UInt8) (s : Snapshot), receive stream = .ok s rest ↔
        announced stream ≤ stream.length ∧ ofBytes (stream.take (announced stream)) = .ok s ∧
          rest = stream.drop (announced stream)) ∧
      ∀ (stream rest : List UInt8) (e : TransferError), receive stream = .error e rest →
        rest = stream.drop (announced stream) :=
  ⟨fun _ tail fits => ⟨_, mapM_toBytes fits, receiveMany_blocks fits tail⟩,
    fun _ _ _ => receive_eq_ok, fun _ _ _ => receive_error⟩

/-- A block with two records, one without any, and two more bytes. -/
theorem blocks_end_themselves_before_tail :
    ∃ blocks,
      [[⟨.segment, "", "C", 6, 256⟩, ⟨.label, "N", "C", 5, 261⟩], []].mapM toBytes = .ok blocks ∧
        receiveMany 2 (blocks.flatten ++ [7, 9]) =
          .ok [[⟨.segment, "", "C", 6, 256⟩, ⟨.label, "N", "C", 5, 261⟩], []] [7, 9] := by
  refine blocks_end_themselves.1 _ [7, 9] fun s member => ?_
  rcases List.mem_pair.1 member with rfl | rfl
  · exact ⟨by decide +kernel, ⟨[_], [_], rfl, by simp, by simp⟩, by decide⟩
  · exact ⟨by decide, ⟨[], [], rfl, by simp, by simp⟩, by decide⟩

end Asm86.Symbols.Snapshot
