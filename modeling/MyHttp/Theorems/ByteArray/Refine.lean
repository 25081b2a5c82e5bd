import MyHttp.ByteArray.Flat
import MyHttp.Theorems.ByteArray.Invariant

/-! The chunked list behaves as one row of bytes, as long as `addCapacity` makes the room it is asked for and no
    empty read is tried. -/

namespace MyHttp
namespace ByteArray

open Lib.Chunks Lib.Run

/-- The operations the refinement is about: non-empty reads, and writes for which room could be made. -/
def Allowed (b : ByteArray) : Op → Prop
  | .write fresh buf => 1 ≤ buf.length ∧ buf.length ≤ (b.addCapacity fresh buf.length).getCapacity
  | .read n => 1 ≤ n
  | .getWriteBuffers fresh n => 1 ≤ n ∧ n ≤ (b.addCapacity fresh n).getCapacity
  | _ => True

instance (b : ByteArray) (op : Op) : Decidable (Allowed b op) := by
  induction op using Op.casesOn <;> (unfold Allowed; infer_instance)

/-- An allowed operation, with the reply it gives. -/
def Answers (b : ByteArray) (e : Op × Reply) (b' : ByteArray) : Prop :=
  Allowed b e.1 ∧ b.perform e.1 = (e.2, b')

/-- The row is the blocks in order, each of `B` bytes; the counters are the same. -/
structure Represents (B : Nat) (b : ByteArray) (f : Flat) : Prop where
  inv : Inv b
  base : b.baseSize = B
  bytes : b.nodes.flatten = f.bytes
  position : b.position = f.position
  size : b.size = f.size

variable {B : Nat} {b b' : ByteArray} {f : Flat}

theorem Represents.capacity (h : Represents B b f) : b.capacity = f.bytes.length := by
  rw [← h.bytes, h.inv.length_flatten]

theorem Represents.readSize (h : Represents B b f) : b.getReadSize = f.size - f.position := by
  rw [getReadSize, h.position, h.size]

theorem represents_new (hB : 0 < B) (memory : Nat → UInt8) :
    Represents B (ByteArray.new memory B) (Flat.new (Node.new memory B)) :=
  ⟨inv_new hB memory, rfl, by simp [ByteArray.new, Flat.new], rfl, rfl⟩

theorem Represents.grow (h : Represents B b f) (fresh : Nat → Nat → UInt8) (n : Nat) :
    ∃ grown, Represents B (b.addCapacity fresh n) (f.grow grown) := by
  obtain ⟨added, hg⟩ := grown_addCapacity fresh b n
  refine ⟨added.flatten, h.inv.addCapacity n, hg.baseSize_eq.trans h.base, ?_, hg.position_eq.trans h.position, hg.size_eq.trans h.size⟩
  rw [hg.flatten_eq, h.bytes, Flat.grow]

/-- One operation of the chunked list is one step of the row, with the same reply. -/
theorem perform_refines (e : Op × Reply) (h : Represents B b f)
    (he : Answers b e b') : ∃ f', Flat.Step B f e f' ∧ Represents B b' f' := by
  obtain ⟨op, r⟩ := e
  obtain ⟨hok, hp⟩ := he
  cases op with
  | write fresh buf =>
    obtain ⟨hbuf, hroom⟩ : 1 ≤ buf.length ∧ buf.length ≤ (b.addCapacity fresh buf.length).getCapacity := hok
    obtain ⟨grown, hg⟩ := h.grow fresh buf.length
    obtain ⟨c, hw, hi, hbase, hpos, hsize, hflat⟩ := h.inv.write hbuf hroom
    have hend := hg.inv.getCapacity_room hroom
    rw [hg.capacity, hg.position] at hend
    obtain ⟨rfl, rfl⟩ : r = .done ∧ b' = c := by simpa [perform, hw, reply, eq_comm] using hp
    refine ⟨_, .write grown hend, hi, hbase.trans h.base, ?_, ?_, ?_⟩
    · rw [hflat, hg.bytes, h.position]
      rfl
    · rw [hpos, h.position]
      rfl
    · rw [hsize, h.position, h.size]
      rfl
  | read n =>
    by_cases hle : n ≤ b.getReadSize
    · obtain ⟨c, hr, hi, hbase, hnodes, hpos, hsize⟩ := h.inv.read hok hle
      obtain ⟨rfl, rfl⟩ : r = .bytes ((b.nodes.flatten.drop b.position).take n) ∧ b' = c := by
        simpa [perform, hr, reply, eq_comm] using hp
      rw [h.bytes, h.position]
      exact ⟨_, .read (h.readSize ▸ hle), hi, hbase.trans h.base, by rw [hnodes, h.bytes]; rfl,
        by rw [hpos, h.position]; rfl, by rw [hsize, h.size]; rfl⟩
    · have hr : b.read n = .error (.outOfRange "not enough len") := by rw [ByteArray.read, if_pos (by omega)]
      obtain ⟨rfl, rfl⟩ : r = .fault (.outOfRange "not enough len") ∧ b' = b := by
        simpa [perform, hr, reply, eq_comm] using hp
      exact ⟨f, .readFault (by rw [← h.readSize]; omega), h⟩
  | setPosition v =>
    by_cases hv : v ≤ b.capacity
    · obtain ⟨c, hs, hi, hbase, hnodes, hpos, hsize⟩ := h.inv.setPosition hv
      obtain ⟨rfl, rfl⟩ : r = .done ∧ b' = c := by simpa [perform, hs, reply, eq_comm] using hp
      exact ⟨_, .setPosition (h.capacity ▸ hv), hi, hbase.trans h.base, by rw [hnodes, h.bytes]; rfl, hpos,
        by rw [hsize, h.size]; rfl⟩
    · have hs : b.setPosition v = .error (.outOfRange "set_position out of range") := by
        rw [ByteArray.setPosition, if_pos (by omega)]
      obtain ⟨rfl, rfl⟩ : r = .fault (.outOfRange "set_position out of range") ∧ b' = b := by
        simpa [perform, hs, reply, eq_comm] using hp
      exact ⟨f, .setPositionFault (by rw [← h.capacity]; omega), h⟩
  | clear =>
    obtain ⟨rfl, rfl⟩ : r = .done ∧ b' = b.clear := by simpa [perform, eq_comm] using hp
    exact ⟨_, .clear, h.inv.clear.1, h.base, by rw [h.inv.clear.2, h.bytes, h.base]; rfl, rfl, rfl⟩
  | toString =>
    obtain ⟨rfl, rfl⟩ : r = .bytes ((b.nodes.flatten.drop b.position).take (b.size - b.position)) ∧ b' = b := by
      simpa [perform, h.inv.toString, reply, eq_comm] using hp
    rw [h.bytes, h.position, h.size]
    exact ⟨f, .toString, h⟩
  | getWriteBuffers fresh n =>
    obtain ⟨hn, hroom⟩ : 1 ≤ n ∧ n ≤ (b.addCapacity fresh n).getCapacity := hok
    obtain ⟨grown, hg⟩ := h.grow fresh n
    obtain ⟨spans, hw, htiles⟩ := h.inv.getWriteBuffers hn hroom
    have hend := hg.inv.getCapacity_room hroom
    rw [hg.capacity, hg.position] at hend
    rw [h.base, h.position] at htiles
    obtain ⟨rfl, rfl⟩ : r = .buffers spans ∧ b' = b.addCapacity fresh n := by
      simpa [perform, hw, reply, eq_comm] using hp
    exact ⟨_, .getWriteBuffers grown hend htiles, hg⟩
  | setIsLittlEndian val =>
    obtain ⟨rfl, rfl⟩ : r = .done ∧ b' = b.setIsLittlEndian val := by simpa [perform, eq_comm] using hp
    exact ⟨f, .setIsLittlEndian, ⟨h.inv.base, h.inv.uniform, h.inv.rooted, h.inv.capacity_eq, h.inv.position_le,
      h.inv.size_le, h.inv.cur_eq⟩, h.base, h.bytes, h.position, h.size⟩

/-- Every sequence of allowed operations on a fresh `ByteArray` is one on a fresh row, with the same replies, and
    leaves the counters and `m_cur` where the row has them. -/
theorem refines_flat {B : Nat} (hB : 1 ≤ B) (memory : Nat → UInt8) {es : List (Op × Reply)} {b : ByteArray}
    (h : Trace Answers (ByteArray.new memory B) es b) :
    ∃ f, Trace (Flat.Step B) (Flat.new (Node.new memory B)) es f ∧ Represents B b f ∧
      b.capacity = B * b.nodes.length ∧ b.position ≤ b.size ∧ b.size ≤ b.capacity ∧
      b.cur = if b.position = b.capacity then none else some (b.position / B) := by
  obtain ⟨f, hrun, hr⟩ := h.simulation (fun _ e _ _ hr he => perform_refines e hr he) (represents_new hB memory)
  refine ⟨f, hrun, hr, ?_, hr.inv.position_le, hr.inv.size_le, ?_⟩
  · rw [hr.inv.capacity_eq, hr.base, Nat.mul_comm]
  · rw [hr.inv.cur_eq, pointer, hr.inv.capacity_eq, hr.base]

/-- Two writes that fill a node and start the next, a step back, a read across both, and two refusals. -/
theorem refines_flat_across : ∃ b f, Trace (Flat.Step 2) (Flat.new [7, 7])
    [(.write (fun _ _ => 7) [1, 2], .done), (.write (fun _ _ => 7) [3], .done), (.setPosition 1, .done),
      (.read 2, .bytes [2, 3]), (.read 1, .fault (.outOfRange "not enough len")),
      (.setPosition 5, .fault (.outOfRange "set_position out of range"))] f ∧ Represents 2 b f := by
  let memory : Nat → Nat → UInt8 := fun _ _ => 7
  let b₀ := ByteArray.new (fun _ => 7) 2
  let b₁ : ByteArray := { b₀ with nodes := [[1, 2]], position := 2, size := 2, cur := none }
  let b₂ : ByteArray := { b₁ with nodes := [[1, 2], [3, 7]], position := 3, size := 3, capacity := 4, cur := some 1 }
  let b₃ : ByteArray := { b₂ with position := 1, cur := some 0 }
  have h₁ : Answers b₀ (.write memory [1, 2], .done) b₁ := ⟨by decide, by decide⟩
  have h₂ : Answers b₁ (.write memory [3], .done) b₂ := ⟨by decide, by decide⟩
  have h₃ : Answers b₂ (.setPosition 1, .done) b₃ := ⟨trivial, by decide⟩
  have h₄ : Answers b₃ (.read 2, .bytes [2, 3]) b₂ := ⟨by decide, by decide⟩
  have h₅ : Answers b₂ (.read 1, .fault (.outOfRange "not enough len")) b₂ := ⟨by decide, by decide⟩
  have h₆ : Answers b₂ (.setPosition 5, .fault (.outOfRange "set_position out of range")) b₂ := ⟨trivial, by decide⟩
  have hrun := Trace.cons h₁ (.cons h₂ (.cons h₃ (.cons h₄ (.cons h₅ (.cons h₆ .nil)))))
  obtain ⟨f, hf, hr, -⟩ := refines_flat (by decide) (fun _ => 7) hrun
  exact ⟨b₂, f, hf, hr⟩

end ByteArray
end MyHttp
