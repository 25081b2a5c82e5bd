import MyHttp.Theorems.ByteArray.Invariant
import Mathlib.Tactic.Ring

/-! The room `addCapacity` makes. The number of new nodes is the missing bytes divided by the base size, rounded up
    only when the remainder exceeds the old free capacity: otherwise the division is rounded down, and one node
    is missing unless the remainder is zero. -/

namespace MyHttp
namespace ByteArray

open Lib.Chunks Lib.Run

variable {b b' : ByteArray} {fresh : Nat → Nat → UInt8} {n : Nat}

/-! ### Reachable states -/

/-- Reading no byte changes nothing, when there is a node to look at. -/
theorem walk_zero (rest : List Node) (i npos : Nat) :
    walk rest i npos 0 = .error .nullNode ∨ walk rest i npos 0 = .ok ([], some i) := by
  cases rest with
  | nil => exact Or.inl rfl
  | cons node rest => exact Or.inr (by rw [walk, if_pos rfl])

theorem read_zero (b : ByteArray) : b.read 0 = .error .nullNode ∨ b.read 0 = .ok ([], b) := by
  unfold ByteArray.read
  rw [if_neg (Nat.not_lt_zero _), walkFrom]
  cases hcur : b.cur with
  | none => exact Or.inl rfl
  | some i =>
    refine (walk_zero (b.nodesFrom (some i)) i (b.position % b.baseSize)).imp (fun h => ?_) fun h => ?_
    · rw [Option.getD_some, h]
      rfl
    · rw [Option.getD_some, h]
      simp only [bind, Except.bind, pure, Except.pure, gather, Nat.add_zero, ← hcur]

theorem step_of_reply {op : Op} {α : Type} {r : Except Fault α} {ok : α → Reply × ByteArray}
    (hp : b.perform op = reply b r ok) (hs : b.step op = some b') :
    (∃ a, r = .ok a ∧ ((ok a).2 = b')) ∨ b' = b := by
  rw [step, hp] at hs
  cases r with
  | ok a =>
    simp only [reply] at hs
    split at hs
    · cases hs
    · exact Or.inl ⟨a, rfl, by rename_i h; rw [h]; simpa using hs⟩
  | error f =>
    simp only [reply] at hs
    split at hs
    · cases hs
    · rename_i h
      exact Or.inr (by simpa [Prod.ext_iff] using (Option.some.inj hs).symm.trans (Prod.ext_iff.mp h).2.symm)

theorem step_inv {op : Op} (h : Inv b) (hs : b.step op = some b') : Inv b' := by
  cases op with
  | write fresh buf =>
    obtain ⟨c, hw, rfl⟩ | rfl := step_of_reply rfl hs
    · by_cases hbuf : buf.length = 0
      · rw [ByteArray.write, if_pos hbuf] at hw
        cases hw
        exact h
      rcases Nat.lt_or_ge (b.addCapacity fresh buf.length).getCapacity buf.length with hroom | hroom
      · rw [h.write_fault (by omega) hroom] at hw
        cases hw
      · obtain ⟨c', hc, hi, -⟩ := h.write (by omega) hroom
        cases hw.symm.trans hc
        exact hi
    · exact h
  | read n =>
    obtain ⟨⟨data, c⟩, hr, rfl⟩ | rfl := step_of_reply rfl hs
    · by_cases hn : n = 0
      · subst hn
        obtain hz | hz := read_zero b
        · cases hr.symm.trans hz
        · cases hr.symm.trans hz
          exact h
      by_cases hle : n ≤ b.getReadSize
      · obtain ⟨c', hc, hi, -⟩ := h.read (by omega) hle
        cases hr.symm.trans hc
        exact hi
      · rw [ByteArray.read, if_pos (by omega)] at hr
        cases hr
    · exact h
  | setPosition v =>
    obtain ⟨c, hp, rfl⟩ | rfl := step_of_reply rfl hs
    · by_cases hv : v ≤ b.capacity
      · obtain ⟨c', hc, hi, -⟩ := h.setPosition hv
        cases hp.symm.trans hc
        exact hi
      · rw [ByteArray.setPosition, if_pos (by omega)] at hp
        cases hp
    · exact h
  | clear =>
    obtain rfl : b.clear = b' := by simpa [step, perform] using hs
    exact h.clear.1
  | toString =>
    obtain ⟨data, hr, rfl⟩ | rfl := step_of_reply rfl hs
    · exact h
    · exact h
  | getWriteBuffers fresh n =>
    obtain ⟨⟨spans, c⟩, hr, rfl⟩ | rfl := step_of_reply rfl hs
    · by_cases hn : n = 0
      · rw [ByteArray.getWriteBuffers, if_pos hn] at hr
        cases hr
        exact h
      rcases Nat.lt_or_ge (b.addCapacity fresh n).getCapacity n with hroom | hroom
      · rw [h.getWriteBuffers_fault (by omega) hroom] at hr
        cases hr
      · obtain ⟨spans', hc, -⟩ := h.getWriteBuffers (by omega) hroom
        cases hr.symm.trans hc
        exact h.addCapacity n
    · exact h
  | setIsLittlEndian val =>
    obtain rfl : b.setIsLittlEndian val = b' := by simpa [step, perform] using hs
    exact ⟨h.base, h.uniform, h.rooted, h.capacity_eq, h.position_le, h.size_le, h.cur_eq⟩

/-- The states of a `ByteArray` of base size `B` under any sequence of public operations. -/
def Reachable (B : Nat) (b : ByteArray) : Prop :=
  ∃ memory, Reach step (fun _ _ => True) (ByteArray.new memory B) b

theorem Reachable.inv {B : Nat} (hB : 1 ≤ B) (h : Reachable B b) : Inv b := by
  obtain ⟨memory, hr⟩ := h
  exact hr.invariant (inv_new hB memory) fun _ _ _ hi _ hs => step_inv hi hs

/-! ### The guarantee -/

/-- What `addCapacity(n)` is for: room for `n` bytes, and nothing else changed. -/
structure Guarantee (fresh : Nat → Nat → UInt8) (b : ByteArray) (n : Nat) : Prop where
  free : n ≤ (b.addCapacity fresh n).getCapacity
  capacity : (b.addCapacity fresh n).capacity = b.baseSize * (b.addCapacity fresh n).nodes.length
  content : b.nodes <+: (b.addCapacity fresh n).nodes
  position : (b.addCapacity fresh n).position = b.position
  size : (b.addCapacity fresh n).size = b.size
  write : ∀ buf : List UInt8, buf.length = n → ∃ b', b.write fresh buf = .ok b'
  buffers : ∃ spans b', b.getWriteBuffers fresh n = .ok (spans, b')

/-- The missing bytes fill whole nodes, or leave a remainder that exceeds the old free capacity. -/
def CapacityOk (b : ByteArray) (n : Nat) : Prop :=
  n ≤ b.getCapacity ∨ (n - b.getCapacity) % b.baseSize = 0 ∨ b.getCapacity < (n - b.getCapacity) % b.baseSize

instance (b : ByteArray) (n : Nat) : Decidable (CapacityOk b n) := by
  unfold CapacityOk
  infer_instance

theorem free_iff (h : Inv b) : n ≤ (b.addCapacity fresh n).getCapacity ↔ CapacityOk b n := by
  have hle := h.position_le.trans h.size_le
  have hfree : (b.addCapacity fresh n).getCapacity =
      b.getCapacity + newNodes b.baseSize b.getCapacity n * b.baseSize := by
    rw [addCapacity_eq]
    exact Nat.sub_add_comm hle
  rw [hfree, CapacityOk, newNodes]
  by_cases hfit : n ≤ b.getCapacity
  · simp only [hfit, if_true, true_or, iff_true]
    exact hfit.trans (Nat.le_add_right _ _)
  generalize hd : n - b.getCapacity = d
  generalize hr : d % b.baseSize = r
  have hmod : d / b.baseSize * b.baseSize + r = d := by rw [← hr, Nat.mul_comm, Nat.div_add_mod]
  have hlt : r < b.baseSize := hr ▸ Nat.mod_lt d h.base
  rw [if_neg hfit]
  by_cases hup : r > b.getCapacity
  · rw [if_pos hup, Nat.add_mul, Nat.one_mul]
    omega
  · rw [if_neg hup, Nat.add_zero]
    omega

/-- In every reachable state and for every `n`, the guarantee holds exactly where `CapacityOk` does. -/
theorem guarantee_iff {B : Nat} (hB : 1 ≤ B) {b : ByteArray} (hb : Reachable B b) (fresh : Nat → Nat → UInt8)
    (n : Nat) : Guarantee fresh b n ↔ CapacityOk b n := by
  have h := hb.inv hB
  refine ⟨fun hg => (free_iff h).mp hg.free, fun hok => ?_⟩
  have hroom : n ≤ (b.addCapacity fresh n).getCapacity := (free_iff h).mpr hok
  obtain ⟨added, hg⟩ := grown_addCapacity fresh b n
  have hi : Inv (b.addCapacity fresh n) := h.addCapacity n
  refine ⟨hroom, ?_, ⟨added, hg.nodes_eq.symm⟩, hg.position_eq, hg.size_eq, ?_, ?_⟩
  · rw [hi.capacity_eq, hg.baseSize_eq, Nat.mul_comm]
  · rintro buf rfl
    by_cases hbuf : buf.length = 0
    · exact ⟨b, by rw [ByteArray.write, if_pos hbuf]⟩
    · obtain ⟨b', hw, -⟩ := h.write (by omega) hroom
      exact ⟨b', hw⟩
  · by_cases hn : n = 0
    · exact ⟨[], b, by rw [ByteArray.getWriteBuffers, if_pos hn]⟩
    · obtain ⟨spans, hw, -⟩ := h.getWriteBuffers (by omega) hroom
      exact ⟨spans, _, hw⟩

/-- Base size 4, after a write of two bytes. -/
def halfFull : ByteArray :=
  { baseSize := 4, position := 2, capacity := 4, size := 2, endian := .big, nodes := [[1, 2, 0, 0]], cur := some 0 }

theorem halfFull_reachable : Reachable 4 halfFull :=
  ⟨fun _ => 0, .next .start trivial (show step _ (.write (fun _ _ => 0) [1, 2]) = some halfFull by decide)⟩

/-- The same, with the cursor in front of the bytes. -/
def rewound : ByteArray := { halfFull with position := 0 }

theorem rewound_reachable : Reachable 4 rewound := by
  obtain ⟨memory, hrun⟩ := halfFull_reachable
  exact ⟨memory, .next hrun trivial (show step halfFull (.setPosition 0) = some rewound by decide)⟩

/-- Three more bytes: no node is added, and `write` runs off the list. -/
theorem guarantee_fails : ¬∀ B ≥ 1, ∀ b, Reachable B b → ∀ fresh n, Guarantee fresh b n := by
  intro h
  have hg := h 4 (by decide) halfFull halfFull_reachable (fun _ _ => 0) 3
  obtain ⟨b', hw⟩ := hg.write [3, 4, 5] rfl
  have hnull : halfFull.write (fun _ _ => 0) [3, 4, 5] = .error .nullNode := by decide
  cases hnull.symm.trans hw

theorem guarantee_halfFull : Guarantee (fun _ _ => 0) halfFull 2 :=
  (guarantee_iff (by decide) halfFull_reachable _ 2).mpr (by decide)

end ByteArray
end MyHttp
