import MyHttp.ByteArray
import MyHttp.Lib.Run
import Mathlib.Algebra.Order.Ring.Nat

/-! What every operation of a `ByteArray` keeps: the blocks have the base size, the counters agree with the
    list, and `m_cur` is the node of the cursor. The loops over the nodes are described once, by `walk_tiles`,
    `walk_fault` and `seek_pointer`. -/

namespace MyHttp
namespace ByteArray

open Lib.Chunks

/-- The pointer to the node of position `p` in a list of `m` nodes of size `B`. -/
def pointer (B m p : Nat) : Option Nat := if p = m * B then none else some (p / B)

/-- The fields agree with each other. -/
structure Inv (b : ByteArray) : Prop where
  base : 0 < b.baseSize
  uniform : Uniform b.baseSize b.nodes
  rooted : b.nodes ≠ []
  capacity_eq : b.capacity = b.nodes.length * b.baseSize
  position_le : b.position ≤ b.size
  size_le : b.size ≤ b.capacity
  cur_eq : b.cur = pointer b.baseSize b.nodes.length b.position

/-! ### Pointers -/

variable {B i m npos size v : Nat} {rest : List Node}

theorem mul_lt_of_lt (hi : i < m) (hn : npos < B) : i * B + npos < m * B := by
  have : (i + 1) * B ≤ m * B := Nat.mul_le_mul_right B hi
  rw [Nat.succ_mul] at this
  omega

theorem pointer_inside (hi : i < m) (hn : npos < B) : pointer B m (i * B + npos) = some i := by
  have hlt := mul_lt_of_lt hi hn
  have hdiv : (i * B + npos) / B = i := by
    rw [Nat.mul_comm, Nat.mul_add_div (by omega), Nat.div_eq_of_lt hn, Nat.add_zero]
  rw [pointer, if_neg (by omega), hdiv]

theorem pointer_next (hB : 0 < B) (hm : i + (rest.length + 1) = m) :
    pointer B m (i * B + B) = next i rest := by
  rw [← Nat.succ_mul]
  cases rest with
  | nil =>
    obtain rfl : i + 1 = m := hm
    simp [pointer, next]
  | cons node rest =>
    rw [List.length_cons] at hm
    have h := pointer_inside (show i + 1 < m by omega) hB
    rw [Nat.add_zero] at h
    simpa [next] using h

/-! ### The loops over the nodes -/

/-- With room for `size` bytes the loop takes exactly those, and ends at their end. -/
theorem walk_tiles (hB : 0 < B) (hu : Uniform B rest) (hm : i + rest.length = m) (hrest : rest ≠ [])
    (hn : npos < B) (hroom : npos + size ≤ rest.length * B) :
    ∃ spans, walk rest i npos size = .ok (spans, pointer B m (i * B + npos + size)) ∧
      Tiles B (i * B + npos) spans size := by
  induction rest generalizing i npos size with
  | nil => exact absurd rfl hrest
  | cons node rest ih =>
    have hnode : node.length = B := hu node List.mem_cons_self
    rw [List.length_cons] at hm hroom
    rw [walk, hnode]
    by_cases hzero : size = 0
    · subst hzero
      rw [if_pos rfl, Nat.add_zero, pointer_inside (by omega) hn]
      exact ⟨[], rfl, .nil⟩
    rw [if_neg hzero]
    by_cases hfit : B - npos ≥ size
    · have htile : Tiles B (i * B + npos) [⟨i, npos, size⟩] (size + 0) :=
        .cons (by simp; omega) (by simp; omega) rfl .nil
      rw [if_pos hfit]
      by_cases hfull : B = npos + size
      · rw [if_pos hfull, Nat.add_assoc, ← hfull, pointer_next hB hm]
        exact ⟨_, rfl, htile⟩
      · rw [if_neg hfull, Nat.add_assoc, pointer_inside (by omega) (by omega)]
        exact ⟨_, rfl, htile⟩
    · -- The rest of this node is taken, and the loop goes on at the start of the next one.
      rw [Nat.succ_mul] at hroom
      have hmore : rest ≠ [] := by
        rintro rfl
        rw [List.length_nil, Nat.zero_mul] at hroom
        omega
      obtain ⟨spans, hwalk, htiles⟩ := ih (fun c hc => hu c (List.mem_cons_of_mem node hc))
        (show i + 1 + rest.length = m by omega) hmore hB (show 0 + (size - (B - npos)) ≤ rest.length * B by omega)
      have hstart : (i + 1) * B + 0 = i * B + npos + (B - npos) := by rw [Nat.succ_mul]; omega
      have hend : i * B + npos + (B - npos) + (size - (B - npos)) = i * B + npos + size := by omega
      rw [hstart] at hwalk htiles
      rw [if_neg hfit, hwalk, hend]
      refine ⟨_, rfl, ?_⟩
      have htile : Tiles B (i * B + npos) (⟨i, npos, B - npos⟩ :: spans) (B - npos + (size - (B - npos))) :=
        .cons (by simp; omega) (by simp; omega) rfl htiles
      rwa [show B - npos + (size - (B - npos)) = size by omega] at htile

/-- Without that room the loop follows the null pointer behind the last node. -/
theorem walk_fault (hu : Uniform B rest) (hn : npos ≤ B) (hsize : 0 < size) (hroom : rest.length * B < npos + size) :
    walk rest i npos size = .error .nullNode := by
  induction rest generalizing i npos size with
  | nil => rfl
  | cons node rest ih =>
    have hnode : node.length = B := hu node List.mem_cons_self
    rw [List.length_cons, Nat.succ_mul] at hroom
    have hrec : walk rest (i + 1) 0 (size - (B - npos)) = .error .nullNode :=
      ih (fun c hc => hu c (List.mem_cons_of_mem node hc)) (Nat.zero_le B) (by omega) (by omega)
    rw [walk, hnode, if_neg (by omega), if_neg (by omega), hrec]
    rfl

theorem seek_pointer (hu : Uniform B rest) (hB : 0 < B) (hm : i + rest.length = m) (hrest : rest ≠ [])
    (hv : v ≤ rest.length * B) : seek rest i v = .ok (pointer B m (i * B + v)) := by
  induction rest generalizing i v with
  | nil => exact absurd rfl hrest
  | cons node rest ih =>
    have hnode : node.length = B := hu node List.mem_cons_self
    rw [List.length_cons] at hm hv
    rw [Nat.succ_mul] at hv
    rw [seek, hnode]
    by_cases hfar : v > B
    · have hmore : rest ≠ [] := by
        rintro rfl
        rw [List.length_nil, Nat.zero_mul] at hv
        omega
      rw [if_pos hfar, ih (fun c hc => hu c (List.mem_cons_of_mem node hc)) (by omega) hmore (by omega),
        show (i + 1) * B + (v - B) = i * B + v by rw [Nat.succ_mul]; omega]
    · rw [if_neg hfar]
      by_cases hend : v = B
      · rw [if_pos hend, hend, pointer_next hB hm]
      · rw [if_neg hend, pointer_inside (by omega) (by omega)]

/-! ### From the cursor on -/

variable {b : ByteArray} {fresh : Nat → Nat → UInt8}

theorem Inv.length_flatten (h : Inv b) : b.nodes.flatten.length = b.capacity := by
  rw [h.uniform.length_flatten, h.capacity_eq]

/-- A cursor that is not at the end points to its node. -/
theorem Inv.cursor (h : Inv b) (hlt : b.position < b.capacity) :
    b.cur = some (b.position / b.baseSize) ∧ b.position / b.baseSize < b.nodes.length := by
  rw [h.capacity_eq] at hlt
  exact ⟨by rw [h.cur_eq, pointer, if_neg (by omega)], Nat.div_lt_of_lt_mul (by rwa [Nat.mul_comm])⟩

theorem Inv.cursor_end (h : Inv b) (hend : b.position = b.capacity) : b.cur = none := by
  rw [h.cur_eq, pointer, if_pos (by rw [hend, h.capacity_eq])]

/-- What is left of the nodes behind the cursor's node. -/
theorem Inv.rest_length (h : Inv b) :
    (b.nodes.drop (b.position / b.baseSize)).length * b.baseSize =
      b.capacity - b.position / b.baseSize * b.baseSize := by
  rw [List.length_drop, Nat.sub_mul, h.capacity_eq]

/-- A walk from any node on. -/
theorem Inv.walk (h : Inv b) (hi : i < b.nodes.length) (hn : npos < b.baseSize)
    (hroom : i * b.baseSize + npos + size ≤ b.capacity) :
    ∃ spans, ByteArray.walk (b.nodes.drop i) i npos size =
        .ok (spans, pointer b.baseSize b.nodes.length (i * b.baseSize + npos + size)) ∧
      Tiles b.baseSize (i * b.baseSize + npos) spans size := by
  have hcount : i + (b.nodes.drop i).length = b.nodes.length := by
    rw [List.length_drop]
    omega
  have hmore : b.nodes.drop i ≠ [] := by
    rw [ne_eq, List.drop_eq_nil_iff]
    omega
  have hfit : npos + size ≤ (b.nodes.drop i).length * b.baseSize := by
    rw [List.length_drop, Nat.sub_mul, ← h.capacity_eq]
    omega
  exact walk_tiles h.base (fun c hc => h.uniform c (List.mem_of_mem_drop hc)) hcount hmore hn hfit

/-- Where a walk from the cursor's node begins, with the offset of position `p`. -/
def start (b : ByteArray) (p : Nat) : Nat := b.position / b.baseSize * b.baseSize + p % b.baseSize

theorem start_position (b : ByteArray) : b.start b.position = b.position := by
  rw [start, Nat.mul_comm, Nat.div_add_mod]

theorem Inv.start_lt (h : Inv b) (hlt : b.position < b.capacity) (p : Nat) : b.start p < b.capacity := by
  rw [h.capacity_eq]
  exact mul_lt_of_lt (h.cursor hlt).2 (Nat.mod_lt _ h.base)

theorem Inv.walkFrom_at (h : Inv b) (hlt : b.position < b.capacity) {p : Nat} (hroom : b.start p + size ≤ b.capacity) :
    ∃ spans, b.walkFrom (p % b.baseSize) size =
        .ok (spans, pointer b.baseSize b.nodes.length (b.start p + size)) ∧
      Tiles b.baseSize (b.start p) spans size := by
  obtain ⟨hcur, hnode⟩ := h.cursor hlt
  rw [ByteArray.walkFrom, hcur, nodesFrom, Option.getD_some]
  exact h.walk hnode (Nat.mod_lt _ h.base) hroom

theorem Inv.walkFrom (h : Inv b) (hsize : 0 < size) (hroom : b.position + size ≤ b.capacity) :
    ∃ spans, b.walkFrom (b.position % b.baseSize) size =
        .ok (spans, pointer b.baseSize b.nodes.length (b.position + size)) ∧
      Tiles b.baseSize b.position spans size := by
  have hwalk := h.walkFrom_at (by omega) (b.start_position.symm ▸ hroom)
  rwa [start_position] at hwalk

theorem Inv.walkFrom_at_fault (h : Inv b) (hlt : b.position < b.capacity) {p : Nat} (hsize : 0 < size)
    (hroom : b.capacity < b.start p + size) : b.walkFrom (p % b.baseSize) size = .error .nullNode := by
  have hrest := h.rest_length
  rw [start] at hroom
  rw [ByteArray.walkFrom, (h.cursor hlt).1, nodesFrom]
  exact walk_fault (fun c hc => h.uniform c (List.mem_of_mem_drop hc)) (Nat.mod_lt _ h.base).le hsize (by omega)

/-- Behind the last node there is nothing to walk, not even for no byte. -/
theorem Inv.walkFrom_end (h : Inv b) (hend : b.position = b.capacity) : b.walkFrom npos size = .error .nullNode := by
  rw [ByteArray.walkFrom, h.cursor_end hend]
  rfl

theorem Inv.walkFrom_fault (h : Inv b) (hsize : 0 < size) (hroom : b.capacity < b.position + size) :
    b.walkFrom (b.position % b.baseSize) size = .error .nullNode := by
  rcases Nat.lt_or_ge b.position b.capacity with hlt | hge
  · exact h.walkFrom_at_fault hlt hsize (b.start_position.symm ▸ hroom)
  · exact h.walkFrom_end (Nat.le_antisymm (h.position_le.trans h.size_le) hge)

/-! ### Growing -/

/-- `b'` is `b` with nodes put at the end of its list. -/
structure Grown (b b' : ByteArray) (added : List Node) : Prop where
  nodes_eq : b'.nodes = b.nodes ++ added
  uniform : Uniform b.baseSize added
  baseSize_eq : b'.baseSize = b.baseSize
  position_eq : b'.position = b.position
  size_eq : b'.size = b.size
  endian_eq : b'.endian = b.endian

/-- The number of nodes that `addCapacity` adds when `free` bytes are left and `n` are asked for. -/
def newNodes (B free n : Nat) : Nat :=
  if n ≤ free then 0 else (n - free) / B + (if (n - free) % B > free then 1 else 0)

theorem addCapacity_eq (b : ByteArray) (n : Nat) :
    b.addCapacity fresh n = { b with
      nodes := b.nodes ++ (List.range (newNodes b.baseSize b.getCapacity n)).map fun k =>
        Node.new (fresh k) b.baseSize
      capacity := b.capacity + newNodes b.baseSize b.getCapacity n * b.baseSize
      cur := if n ≤ b.getCapacity then b.cur else if b.getCapacity = 0 then
        (if newNodes b.baseSize b.getCapacity n = 0 then none else some b.nodes.length) else b.cur } := by
  unfold addCapacity newNodes
  by_cases hn : n = 0
  · simp [hn]
  by_cases hfit : n ≤ b.getCapacity
  · simp [hn, hfit]
  · simp [hn, hfit]

theorem grown_addCapacity (fresh : Nat → Nat → UInt8) (b : ByteArray) (n : Nat) : ∃ added, Grown b (b.addCapacity fresh n) added := by
  rw [addCapacity_eq]
  refine ⟨_, rfl, ?_, rfl, rfl, rfl, rfl⟩
  intro node hnode
  obtain ⟨k, -, rfl⟩ := List.mem_map.mp hnode
  simp [Node.new]

theorem newNodes_pos {B n : Nat} (hB : 0 < B) (hn : 0 < n) : 0 < newNodes B 0 n := by
  rw [newNodes, if_neg (by omega), Nat.sub_zero]
  rcases Nat.lt_or_ge n B with hlt | hge
  · rw [Nat.mod_eq_of_lt hlt, if_pos hn]
    exact Nat.succ_pos _
  · exact Nat.add_pos_left (Nat.div_pos hge hB) _

theorem Inv.addCapacity (h : Inv b) (n : Nat) : Inv (b.addCapacity fresh n) := by
  obtain ⟨added, hg⟩ := grown_addCapacity fresh b n
  rw [addCapacity_eq] at hg ⊢
  have hm : b.nodes.length * b.baseSize = b.capacity := h.capacity_eq.symm
  have hle := h.position_le.trans h.size_le
  have hu := h.uniform.append hg.uniform
  rw [← hg.nodes_eq] at hu
  refine ⟨h.base, hu, by simp [h.rooted], ?_, h.position_le, h.size_le.trans (Nat.le_add_right _ _), ?_⟩
  · simp [h.capacity_eq, Nat.add_mul]
  · simp only [List.length_append, List.length_map, List.length_range]
    generalize hk : newNodes b.baseSize b.getCapacity n = k
    by_cases hend : b.position = b.capacity
    · -- The cursor is behind the last node: it moves to the first new one.
      have hfree : b.getCapacity = 0 := by rw [getCapacity]; omega
      rw [hfree] at hk ⊢
      by_cases hn : n ≤ 0
      · obtain rfl : k = 0 := by rw [← hk, newNodes, if_pos hn]
        rw [if_pos hn, h.cur_eq, Nat.add_zero]
      · have hpos : 0 < k := hk ▸ newNodes_pos h.base (by omega)
        have hin := pointer_inside (show b.nodes.length < b.nodes.length + k by omega) h.base
        rw [if_neg hn, if_pos rfl, if_neg (by omega), hend, ← hm]
        exact hin.symm
    · -- The cursor is inside a node, which keeps its number.
      have hfree : b.getCapacity ≠ 0 := by rw [getCapacity]; omega
      rw [if_neg hfree, ite_self, h.cur_eq, pointer, if_neg (by omega), pointer, if_neg]
      rw [Nat.add_mul]
      omega

theorem Grown.flatten_eq {b' : ByteArray} {added : List Node} (h : Grown b b' added) :
    b'.nodes.flatten = b.nodes.flatten ++ added.flatten := by
  rw [h.nodes_eq, List.flatten_append]

/-! ### The operations -/

/-- Other nodes of the same number and size. -/
theorem Inv.setNodes (h : Inv b) {nodes : List Node} (hu : Uniform b.baseSize nodes)
    (hlen : nodes.length = b.nodes.length) : Inv { b with nodes } := by
  refine ⟨h.base, hu, ?_, ?_, h.position_le, h.size_le, ?_⟩
  · rintro rfl
    exact h.rooted (List.length_eq_zero_iff.mp hlen.symm)
  · rw [hlen]
    exact h.capacity_eq
  · rw [hlen]
    exact h.cur_eq

theorem inv_new {B : Nat} (hB : 0 < B) (memory : Nat → UInt8) : Inv (ByteArray.new memory B) := by
  refine ⟨hB, ?_, by simp [ByteArray.new], by simp [ByteArray.new], Nat.le_refl 0, Nat.zero_le _, ?_⟩
  · intro node hnode
    obtain rfl : node = Node.new memory B := by simpa [ByteArray.new] using hnode
    simp [Node.new, ByteArray.new]
  · have hin := pointer_inside (show 0 < 1 by omega) hB
    rw [Nat.zero_mul] at hin
    exact hin.symm

theorem Inv.getCapacity_room (h : Inv b) {n : Nat} (hn : n ≤ b.getCapacity) : b.position + n ≤ b.capacity := by
  have := h.position_le.trans h.size_le
  rw [getCapacity] at hn
  omega

/-- `write` after the room was made: the bytes stand at the cursor, which moves behind them. -/
theorem Inv.write (h : Inv b) {buf : List UInt8} (hbuf : 0 < buf.length)
    (hroom : buf.length ≤ (b.addCapacity fresh buf.length).getCapacity) :
    ∃ b', b.write fresh buf = .ok b' ∧ Inv b' ∧ b'.baseSize = b.baseSize ∧
      b'.position = b.position + buf.length ∧
      b'.size = max b.size (b.position + buf.length) ∧
      b'.nodes.flatten = overwrite (b.addCapacity fresh buf.length).nodes.flatten b.position buf := by
  obtain ⟨added, hg⟩ := grown_addCapacity fresh b buf.length
  have hi : Inv (b.addCapacity fresh buf.length) := h.addCapacity buf.length
  unfold ByteArray.write
  rw [if_neg (by omega), ← hg.position_eq, ← hg.size_eq]
  generalize b.addCapacity fresh buf.length = c at hroom hi hg ⊢
  have hend := hi.getCapacity_room hroom
  obtain ⟨spans, hwalk, htiles⟩ := hi.walkFrom hbuf hend
  obtain ⟨hflat, hu, hlen⟩ := scatter_tiles hi.uniform htiles (hi.capacity_eq ▸ hend) le_rfl
  have hsize : (if c.position + buf.length > c.size then c.position + buf.length else c.size) =
      max c.size (c.position + buf.length) := (max_def_lt ..).symm
  refine ⟨{ c with nodes := scatter c.nodes spans buf, position := c.position + buf.length
                   cur := pointer c.baseSize c.nodes.length (c.position + buf.length)
                   size := max c.size (c.position + buf.length) }, ?_, ?_, hg.baseSize_eq, rfl, rfl, hflat⟩
  · simp only [hwalk, hsize, bind, Except.bind, pure, Except.pure]
  · refine ⟨hi.base, hu, ?_, by rw [hlen, hi.capacity_eq], Nat.le_max_right _ _, ?_, by rw [hlen]⟩
    · intro (hnil : scatter c.nodes spans buf = [])
      rw [hnil, List.length_nil] at hlen
      exact hi.rooted (List.length_eq_zero_iff.mp hlen.symm)
    · exact Nat.max_le.mpr ⟨hi.size_le, hend⟩

/-- Where the room could not be made, `write` follows the null pointer. -/
theorem Inv.write_fault (h : Inv b) {buf : List UInt8} (hbuf : 0 < buf.length)
    (hroom : (b.addCapacity fresh buf.length).getCapacity < buf.length) : b.write fresh buf = .error .nullNode := by
  have hi : Inv (b.addCapacity fresh buf.length) := h.addCapacity buf.length
  have hend : (b.addCapacity fresh buf.length).capacity <
      (b.addCapacity fresh buf.length).position + buf.length := by
    rw [getCapacity] at hroom
    omega
  unfold ByteArray.write
  rw [if_neg (by omega)]
  simp only [hi.walkFrom_fault hbuf hend, bind, Except.bind]

theorem Inv.read (h : Inv b) {n : Nat} (hn : 0 < n) (hle : n ≤ b.getReadSize) :
    ∃ b', b.read n = .ok ((b.nodes.flatten.drop b.position).take n, b') ∧ Inv b' ∧
      b'.baseSize = b.baseSize ∧ b'.nodes = b.nodes ∧ b'.position = b.position + n ∧ b'.size = b.size := by
  have hend : b.position + n ≤ b.size := by
    have := h.position_le
    rw [getReadSize] at hle
    omega
  obtain ⟨spans, hwalk, htiles⟩ := h.walkFrom hn (hend.trans h.size_le)
  have hdata := gather_tiles h.uniform htiles (h.capacity_eq ▸ hend.trans h.size_le)
  refine ⟨{ b with cur := pointer b.baseSize b.nodes.length (b.position + n), position := b.position + n },
    ?_, ⟨h.base, h.uniform, h.rooted, h.capacity_eq, hend, h.size_le, rfl⟩, rfl, rfl, rfl, rfl⟩
  unfold ByteArray.read
  rw [if_neg (by omega), ← hdata]
  simp only [hwalk, bind, Except.bind, pure, Except.pure]

theorem Inv.setPosition (h : Inv b) (hv : v ≤ b.capacity) :
    ∃ b', b.setPosition v = .ok b' ∧ Inv b' ∧ b'.baseSize = b.baseSize ∧ b'.nodes = b.nodes ∧
      b'.position = v ∧ b'.size = max b.size v := by
  have hseek := seek_pointer h.uniform h.base (Nat.zero_add _) h.rooted (h.capacity_eq ▸ hv)
  rw [Nat.zero_mul, Nat.zero_add] at hseek
  have hsize : (if v > b.size then v else b.size) = max b.size v := (max_def_lt ..).symm
  refine ⟨{ b with position := v, size := max b.size v, cur := pointer b.baseSize b.nodes.length v }, ?_,
    ⟨h.base, h.uniform, h.rooted, h.capacity_eq, Nat.le_max_right _ _, Nat.max_le.mpr ⟨h.size_le, hv⟩, rfl⟩,
    rfl, rfl, rfl, rfl⟩
  unfold ByteArray.setPosition
  rw [if_neg (by omega)]
  simp only [hseek, hsize, bind, Except.bind, pure, Except.pure]

theorem Inv.clear (h : Inv b) : Inv b.clear ∧ b.clear.nodes.flatten = b.nodes.flatten.take b.baseSize := by
  obtain ⟨root, rest, hnodes⟩ := List.exists_cons_of_ne_nil h.rooted
  have hroot : root.length = b.baseSize := h.uniform root (by rw [hnodes]; exact List.mem_cons_self)
  constructor
  · refine ⟨h.base, fun c hc => h.uniform c (List.mem_of_mem_take hc), ?_, ?_, Nat.le_refl 0, Nat.zero_le _, ?_⟩
    · simp [ByteArray.clear, hnodes]
    · simp [ByteArray.clear, hnodes]
    · have hin := pointer_inside (show 0 < 1 by omega) h.base
      rw [Nat.zero_mul] at hin
      simpa [ByteArray.clear, hnodes] using hin.symm
  · simp [ByteArray.clear, hnodes, ← hroot]

/-- What `read(buf, size, position)` takes begins in the node of the cursor. -/
theorem Inv.readAt (h : Inv b) {p : Nat} (hsize : size ≤ b.getReadSize) (hlt : b.position < b.capacity)
    (hroom : b.start p + size ≤ b.capacity) : b.readAt size p = .ok ((b.nodes.flatten.drop (b.start p)).take size) := by
  obtain ⟨spans, hwalk, htiles⟩ := h.walkFrom_at hlt hroom
  unfold ByteArray.readAt
  rw [if_neg (Nat.not_lt.mpr hsize), hwalk, ← gather_tiles h.uniform htiles (h.capacity_eq ▸ hroom)]
  rfl

theorem Inv.toString (h : Inv b) :
    b.toString = .ok ((b.nodes.flatten.drop b.position).take (b.size - b.position)) := by
  unfold ByteArray.toString
  by_cases hempty : b.getReadSize = 0
  · rw [if_pos hempty, ← getReadSize, hempty, List.take_zero]
  have hend : b.position + b.getReadSize ≤ b.capacity := by
    have := h.size_le
    rw [getReadSize] at hempty ⊢
    omega
  have hread := h.readAt (Nat.le_refl _) (by omega) (b.start_position.symm ▸ hend)
  rw [if_neg hempty, hread, start_position, getReadSize]

/-- `getWriteBuffers` only makes room; the iovecs are the writable bytes behind the cursor, in order. -/
theorem Inv.getWriteBuffers (h : Inv b) {n : Nat} (hn : 0 < n)
    (hroom : n ≤ (b.addCapacity fresh n).getCapacity) :
    ∃ spans, b.getWriteBuffers fresh n = .ok (spans, b.addCapacity fresh n) ∧
      Tiles b.baseSize b.position spans n := by
  obtain ⟨added, hg⟩ := grown_addCapacity fresh b n
  have hi : Inv (b.addCapacity fresh n) := h.addCapacity n
  obtain ⟨spans, hwalk, htiles⟩ := hi.walkFrom hn (hi.getCapacity_room hroom)
  rw [hg.baseSize_eq, hg.position_eq] at htiles
  refine ⟨spans, ?_, htiles⟩
  unfold ByteArray.getWriteBuffers
  rw [if_neg (by omega)]
  simp only [hwalk, bind, Except.bind, pure, Except.pure]

theorem Inv.getWriteBuffers_fault (h : Inv b) {n : Nat} (hn : 0 < n)
    (hroom : (b.addCapacity fresh n).getCapacity < n) : b.getWriteBuffers fresh n = .error .nullNode := by
  have hi : Inv (b.addCapacity fresh n) := h.addCapacity n
  have hend : (b.addCapacity fresh n).capacity < (b.addCapacity fresh n).position + n := by
    rw [getCapacity] at hroom
    omega
  unfold ByteArray.getWriteBuffers
  rw [if_neg (by omega)]
  simp only [hi.walkFrom_fault hn hend, bind, Except.bind]

/-- The iovecs are the readable bytes behind the cursor, as many as are asked for, in order. -/
theorem Inv.getReadBuffers (h : Inv b) (n : Nat) : ∃ spans, b.getReadBuffers n = .ok spans ∧
    Tiles b.baseSize b.position spans (min n b.getReadSize) ∧
    gather b.nodes spans = (b.nodes.flatten.drop b.position).take (min n b.getReadSize) := by
  have hmin : (if n > b.getReadSize then b.getReadSize else n) = min n b.getReadSize :=
    (min_def_lt ..).symm.trans (Nat.min_comm ..)
  unfold ByteArray.getReadBuffers
  rw [hmin]
  rcases Nat.eq_zero_or_pos (min n b.getReadSize) with hzero | hpos
  · rw [hzero]
    exact ⟨[], rfl, .nil, List.take_zero.symm⟩
  · have hend : b.position + min n b.getReadSize ≤ b.capacity := by
      have hsize := h.size_le
      have hle : min n b.getReadSize ≤ b.getReadSize := Nat.min_le_right _ _
      rw [getReadSize] at hle hpos ⊢
      omega
    obtain ⟨spans, hwalk, htiles⟩ := h.walkFrom hpos hend
    refine ⟨spans, ?_, htiles, gather_tiles h.uniform htiles (h.capacity_eq ▸ hend)⟩
    dsimp only
    rw [if_neg (Nat.pos_iff_ne_zero.mp hpos)]
    simp only [hwalk, bind, Except.bind, pure, Except.pure]

end ByteArray
end MyHttp
