import MyHttp.ByteArray.Files
import MyHttp.Theorems.ByteArray.Views

/-! What `writeToFile` puts into a file, and what comes of the file. Every round of its loop goes on to the next node; it
    goes on at the start of that node only if the round has come to the end of its own. -/

namespace MyHttp
namespace ByteArray

open Lib.Chunks Lib.Machine Lib.Run

variable {b c c' : ByteArray} {B i k n r : Nat} {rest : List Node} {writes : List FileWrite} {file pre : List UInt8}

/-! ### Into a file -/

/-- A call that writes something, from a place that is not in front of its node. -/
structure FileWrite.Sound (w : FileWrite) : Prop where
  diff : 0 ≤ w.diff
  len : 0 < w.len

theorem fileWrites_done (rest : List Node) (i : Nat) (pos : Int) : fileWrites B rest i pos 0 = .ok [] := by
  cases rest <;> rfl

/-- A node and what the round leaves for the others. -/
theorem fileWrites_cons {node : Node} {pos readSize : Int} (h : 0 < readSize) :
    fileWrites B (node :: rest) i pos readSize = (do
      let diff := int32 (pos % B)
      let len := (if readSize > B then (B : Int) else readSize) - diff
      let writes ← fileWrites B rest (i + 1) (pos + len) (readSize - len)
      return ⟨i, diff, len⟩ :: writes) := if_pos h

/-- From the start of a node on, or with a whole node's bytes to come, every round comes to the end of its node. -/
theorem fileWrites_tiles (hr : r < B) (hint : r < 2 ^ 31) (hroom : r + n ≤ rest.length * B) (hn : n = 0 ∨ r = 0 ∨ B ≤ n) :
    ∃ writes, fileWrites B rest i ((i * B + r : Nat) : Int) n = .ok writes ∧ (∀ w ∈ writes, w.Sound) ∧
      Tiles B (i * B + r) (writes.map FileWrite.span) n := by
  induction rest generalizing i n r with
  | nil =>
    obtain rfl : n = 0 := by rw [List.length_nil, Nat.zero_mul] at hroom; omega
    exact ⟨[], rfl, nofun, .nil⟩
  | cons node rest ih =>
    rcases Nat.eq_zero_or_pos n with rfl | hpos
    · exact ⟨[], fileWrites_done _ _ _, nofun, .nil⟩
    have hdiff : int32 (((i * B + r : Nat) : Int) % B) = r := by
      have hmod : (i * B + r) % B = r := by rw [Nat.mul_add_mod_self_right, Nat.mod_eq_of_lt hr]
      rw [← Int.natCast_mod, hmod]
      exact int32_eq (by omega) (by omega)
    obtain ⟨k, hk, hlen⟩ : ∃ k, k + r = min n B ∧ (if (n : Int) > B then (B : Int) else n) - r = k := by
      refine ⟨min n B - r, by omega, ?_⟩
      split_ifs <;> omega
    have hkpos : 0 < k := by omega
    have hplace : ((i * B + r : Nat) : Int) + k = ((i * B + r + k : Nat) : Int) := rfl
    have hleft : (n : Int) - k = (n - k : Nat) := by omega
    -- the last round may stop inside of its node; the others do not
    have hrest : ∃ writes, fileWrites B rest (i + 1) ((i * B + r + k : Nat) : Int) (n - k : Nat) = .ok writes ∧
        (∀ w ∈ writes, w.Sound) ∧ Tiles B (i * B + r + k) (writes.map FileWrite.span) (n - k) := by
      rcases Nat.eq_zero_or_pos (n - k) with hzero | hmore
      · rw [hzero]
        exact ⟨[], fileWrites_done _ _ _, nofun, .nil⟩
      · have hnext : i * B + r + k = (i + 1) * B + 0 := by rw [Nat.succ_mul]; omega
        rw [List.length_cons, Nat.succ_mul] at hroom
        rw [hnext]
        exact ih (by omega) (by decide) (by omega) (.inr (.inl rfl))
    obtain ⟨writes, heq, hsound, htiles⟩ := hrest
    have htiles' : Tiles B (i * B + r) (⟨i, r, k⟩ :: writes.map FileWrite.span) (k + (n - k)) :=
      .cons hkpos (by rw [Nat.add_comm, hk]; exact Nat.min_le_right ..) rfl htiles
    rw [Nat.add_sub_cancel' (by omega)] at htiles'
    refine ⟨⟨i, r, k⟩ :: writes, ?_, fun w hw => ?_, htiles'⟩
    · rw [fileWrites_cons (by omega)]
      simp only [hdiff, hlen, hplace, hleft, heq]
      rfl
    · rcases List.mem_cons.mp hw with rfl | hw
      · exact ⟨Int.natCast_nonneg r, Int.natCast_pos.mpr hkpos⟩
      · exact hsound w hw

/-- A round that is run has its node, and is a call. -/
theorem fileWrites_inv {nodes : List Node} {pos readSize : Int} (h : fileWrites B nodes i pos readSize = .ok writes)
    (hpos : 0 < readSize) : ∃ len rest after, len = (if readSize > B then (B : Int) else readSize) - int32 (pos % B) ∧
      writes = ⟨i, int32 (pos % B), len⟩ :: after ∧ fileWrites B rest (i + 1) (pos + len) (readSize - len) = .ok after := by
  cases nodes with
  | nil => cases (if_pos hpos).symm.trans h
  | cons node rest =>
    rw [fileWrites_cons hpos] at h
    obtain ⟨after, hafter, hw⟩ := bind_eq_ok.mp h
    exact ⟨_, rest, after, rfl, (Except.ok.inj hw).symm, hafter⟩

theorem tiles_writes {diff len : Int} {p : Nat} (h : Tiles B p ((⟨i, diff, len⟩ :: writes).map FileWrite.span) n) :
    i * B + diff.toNat = p ∧ ∃ m, n = len.toNat + m ∧ Tiles B (p + len.toNat) (writes.map FileWrite.span) m := by
  rw [List.map_cons] at h
  rcases h with - | ⟨-, -, hplace, hrest⟩
  exact ⟨hplace, _, rfl, hrest⟩

/-- Where the calls write a stretch, one after another, it begins at a node, or a whole node's bytes are to come. -/
theorem fileWrites_short {nodes : List Node} (hr : r < B) (hpos : 0 < n)
    (heq : fileWrites B nodes i ((i * B + r : Nat) : Int) n = .ok writes) (hsound : ∀ w ∈ writes, w.Sound)
    (htiles : Tiles B (i * B + r) (writes.map FileWrite.span) n) : r = 0 ∨ B ≤ n ∧ r < 2 ^ 31 := by
  have hmod : (((i * B + r : Nat) : Int) % B) = r := by
    rw [← Int.natCast_mod, Nat.mul_add_mod_self_right, Nat.mod_eq_of_lt hr]
  obtain ⟨len, rest, after, hlen, rfl, hafter⟩ := fileWrites_inv heq (by omega)
  obtain ⟨hdiff, hlenpos⟩ := hsound _ List.mem_cons_self
  dsimp only at hdiff hlenpos
  obtain ⟨hplace, m, hm, htiles⟩ := tiles_writes htiles
  rw [hmod] at hdiff hlen hplace
  by_cases hzero : r = 0
  · exact .inl hzero
  have hint : int32 r = r := by
    have hoff : (int32 r).toNat = r := Nat.add_left_cancel hplace
    rw [← Int.toNat_of_nonneg hdiff, hoff]
  have hrange : r < 2 ^ 31 := by exact_mod_cast ((int32_iff r r).mp hint).2.1
  refine .inr ⟨?_, hrange⟩
  -- otherwise the next call is at the next node, and the stretch goes on in this one
  by_contra hshort
  have hlen : len = n - r := by rw [hlen, hint, if_neg (by omega)]
  have hleft : (n : Int) - len = r := by rw [hlen, Int.sub_sub_self]
  rw [hleft] at hafter
  have hmore : 0 < (r : Int) := Int.natCast_pos.mpr (Nat.pos_of_ne_zero hzero)
  obtain ⟨len', rest', after', -, rfl, -⟩ := fileWrites_inv hafter hmore
  have hsum : r + len.toNat = n := by omega
  have hnext := (tiles_writes htiles).1
  rw [Nat.add_assoc (i * B), hsum, Nat.succ_mul, Nat.add_assoc] at hnext
  have hback : B ≤ n := Nat.le_of_add_right_le (Nat.add_left_cancel hnext).le
  exact hshort hback

/-- The calls of `writeToFile`, and where the bytes lie that they write. -/
def Saves (b : ByteArray) (writes : List FileWrite) : Prop :=
  b.writeToFile = .ok writes ∧ (∀ w ∈ writes, w.Sound) ∧
    Tiles b.baseSize b.position (writes.map FileWrite.span) b.getReadSize

/-- The cursor is at the start of a node, or has a whole node's bytes before it. -/
def SavesWell (b : ByteArray) : Prop :=
  b.getReadSize = 0 ∨ b.position % b.baseSize = 0 ∨ b.baseSize ≤ b.getReadSize ∧ b.position % b.baseSize < 2 ^ 31

instance (b : ByteArray) : Decidable (SavesWell b) := by
  unfold SavesWell
  infer_instance

theorem Inv.saves_iff (h : Inv b) : (∃ writes, Saves b writes) ↔ SavesWell b := by
  unfold Saves SavesWell writeToFile
  rcases Nat.eq_zero_or_pos b.getReadSize with hzero | hpos
  · rw [hzero]
    exact iff_of_true ⟨[], fileWrites_done _ _ _, nofun, .nil⟩ (.inl rfl)
  have hr : b.position % b.baseSize < b.baseSize := Nat.mod_lt _ h.base
  have hsize := h.size_le
  have hlt : b.position < b.capacity := by
    rw [getReadSize] at hpos
    omega
  have hsplit : b.position / b.baseSize * b.baseSize + b.position % b.baseSize = b.position := b.start_position
  have hroom : b.position % b.baseSize + b.getReadSize ≤ (b.nodes.drop (b.position / b.baseSize)).length * b.baseSize := by
    rw [h.rest_length, getReadSize]
    omega
  rw [(h.cursor hlt).1, Option.getD_some, nodesFrom]
  generalize b.position / b.baseSize = i at hsplit hroom ⊢
  generalize b.position % b.baseSize = r at hsplit hroom hr ⊢
  rw [← hsplit]
  constructor
  · rintro ⟨writes, heq, hsound, htiles⟩
    exact .inr (fileWrites_short hr hpos heq hsound htiles)
  · rintro (hzero | hzero | ⟨hle, hint⟩)
    · exact absurd hzero hpos.ne'
    · exact fileWrites_tiles hr (hzero ▸ by decide) hroom (.inr (.inl hzero))
    · exact fileWrites_tiles hr hint hroom (.inr (.inr hle))

/-- Inside of a node, with less than a node's bytes to come, a round stops short or goes back, and the next one does the
    opposite, until there is no node. -/
theorem fileWrites_null (nodes : List Node) {q : Nat} (hr : 0 < r) (hpos : 0 < n) (hrB : r < B) (hnB : n < B)
    (hint : B ≤ 2 ^ 31) : fileWrites B nodes i ((q * B + r : Nat) : Int) n = .error .nullNode := by
  have hread : (0 : Int) < n := Int.natCast_pos.mpr hpos
  induction nodes generalizing i r n with
  | nil => exact if_pos hread
  | cons node rest ih =>
    have hdiff : int32 (((q * B + r : Nat) : Int) % B) = r := by
      rw [← Int.natCast_mod, Nat.mul_add_mod_self_right, Nat.mod_eq_of_lt hrB]
      exact int32_eq (by omega) (by omega)
    have hlen : (if (n : Int) > B then (B : Int) else n) - r = n - r := by rw [if_neg (by omega)]
    have hplace : ((q * B + r : Nat) : Int) + (n - r) = ((q * B + n : Nat) : Int) := by
      rw [Int.natCast_add, Int.natCast_add]
      omega
    have hleft : (n : Int) - (n - r) = r := Int.sub_sub_self ..
    rw [fileWrites_cons hread]
    simp only [hdiff, hlen, hplace, hleft]
    rw [ih hpos hr hnB hrB (Int.natCast_pos.mpr hr)]
    rfl

theorem Inv.writeToFile_null (h : Inv b) (hint : b.baseSize ≤ 2 ^ 31) (hnot : ¬SavesWell b) :
    b.writeToFile = .error .nullNode := by
  unfold SavesWell at hnot
  push Not at hnot
  obtain ⟨hread, hplace, hshort⟩ := hnot
  have hr : b.position % b.baseSize < b.baseSize := Nat.mod_lt _ h.base
  have hsplit : b.position / b.baseSize * b.baseSize + b.position % b.baseSize = b.position := b.start_position
  have hnull := fileWrites_null (b.nodesFrom b.cur) (i := b.cur.getD 0) (q := b.position / b.baseSize)
    (Nat.pos_of_ne_zero hplace) (Nat.pos_of_ne_zero hread) hr (by omega) hint
  rwa [hsplit] at hnull

/-! ### From a file -/

/-- A part of the file is written at the end of a node, or into the only node. -/
theorem Inv.putNode (h : Inv c) (fresh : Nat → Nat → UInt8) (hcap : c.getCapacity = 0 ∨ c.getCapacity = c.baseSize)
    (hlen : file.length ≤ c.baseSize) : ∃ c', c.write fresh file = .ok c' ∧ Wrote c file c' ∧ c'.baseSize = c.baseSize ∧
      (file.length = c.baseSize → c'.getCapacity = 0) := by
  have hok : CapacityOk c file.length := by
    rcases hcap with hnone | hnode
    · rw [CapacityOk, hnone]
      exact .inr (Nat.eq_zero_or_pos _)
    · exact .inl (hnode ▸ hlen)
  obtain ⟨c', hput, hwrote, hcapacity⟩ := h.put ((free_iff h).mpr hok)
  have hwrite := write_of_put hput
  refine ⟨c', hwrite, hwrote, (write_fields hwrite).2, fun hfull => ?_⟩
  have hle := h.position_le.trans h.size_le
  rw [getCapacity, hcapacity, hwrote.position, hfull]
  rcases hcap with hnone | hnode
  · have hone : newNodes c.baseSize 0 c.baseSize = 1 := by
      rw [newNodes, if_neg (Nat.not_le.mpr h.base), Nat.sub_zero, Nat.div_self h.base, Nat.mod_self]
      rfl
    have hmore : (c.addCapacity fresh c.baseSize).capacity = c.capacity + c.baseSize := by
      rw [addCapacity_eq, hnone, hone, Nat.one_mul]
    rw [getCapacity] at hnone
    omega
  · rw [addCapacity_of_room hnode.ge]
    rw [getCapacity] at hnode
    omega

theorem readFile_wrote (h : Inv c) (fresh : Nat → Nat → Nat → UInt8)
    (hcap : c.getCapacity = 0 ∨ c.getCapacity = c.baseSize) (hk : file.length < k) :
    ∃ c', readFile fresh k c file = some (.ok c') ∧ Wrote c file c' := by
  induction k generalizing c file with
  | zero => exact absurd hk (Nat.not_lt_zero _)
  | succ k ih =>
    have hlen : (file.take c.baseSize).length ≤ c.baseSize := List.length_take_le ..
    obtain ⟨c', hwrite, hwrote, hbase, hfull⟩ := h.putNode (fresh k) hcap hlen
    rw [readFile]
    simp only [hwrite]
    by_cases hend : (file.take c.baseSize).length < c.baseSize
    · have hall : file.take c.baseSize = file := by
        rw [List.length_take] at hend
        exact List.take_of_length_le (by omega)
      rw [if_pos hend]
      exact ⟨c', rfl, hall ▸ hwrote⟩
    · rw [if_neg hend]
      have hnone : c'.getCapacity = 0 := hfull (Nat.le_antisymm hlen (Nat.not_lt.mp hend))
      have hless : (file.drop c.baseSize).length < k := by
        have hbase := h.base
        rw [List.length_drop]
        rw [List.length_take] at hend
        omega
      obtain ⟨c'', hread, hwrote'⟩ := ih hwrote.inv (.inl hnone) hless
      refine ⟨c'', hread, ?_⟩
      have hboth := hwrote.trans hwrote'
      rwa [List.take_append_drop] at hboth

/-- The bytes of a file are what is readable from the first position on. -/
theorem readFile_content (hB : 1 ≤ B) (memory : Nat → UInt8) (fresh : Nat → Nat → Nat → UInt8) (hk : file.length < k) :
    ∃ c c', readFile fresh k (new memory B) file = some (.ok c) ∧ c.setPosition 0 = .ok c' ∧ c'.toString = .ok file := by
  obtain ⟨c, hread, hwrote⟩ := readFile_wrote (inv_new hB memory) fresh (.inr (Nat.sub_zero B)) hk
  obtain ⟨c', hseek, hinv, -, hnodes, hposition, hsize⟩ := hwrote.inv.setPosition (Nat.zero_le _)
  obtain ⟨grown, hfit, hbytes⟩ := hwrote.bytes
  have hpos : (new memory B).position = 0 := rfl
  have hzero : (new memory B).size = 0 := rfl
  refine ⟨c, c', hread, hseek, ?_⟩
  rw [hpos, Nat.zero_add] at hfit
  rw [hinv.toString, hnodes, hposition, hsize, hwrote.size, hbytes, hpos, hzero, Nat.zero_add, Nat.zero_max, Nat.max_zero,
    Nat.sub_zero, List.drop_zero, overwrite, List.take_zero, List.nil_append, Nat.zero_add, List.take_left]

/-! ### There and back -/

/-- The bytes of `b` from the cursor on are in the file, each call writes some of them, in order, and whatever has been
    filled from the file has what `b` has. -/
def FileRoundTrip (b : ByteArray) : Prop :=
  ∃ writes, Saves b writes ∧ gather b.nodes (writes.map FileWrite.span) = b.unread ∧
    ∀ B ≥ 1, ∀ memory fresh, ∀ k > b.getReadSize, ∃ c c',
      readFile fresh k (new memory B) (gather b.nodes (writes.map FileWrite.span)) = some (.ok c) ∧
        c.setPosition 0 = .ok c' ∧ c'.toString = b.toString

theorem fileRoundTrip_iff (hB : 1 ≤ B) (hb : Reachable B b) : FileRoundTrip b ↔ SavesWell b := by
  have h := hb.inv hB
  rw [← h.saves_iff]
  constructor
  · rintro ⟨writes, hsaves, -⟩
    exact ⟨writes, hsaves⟩
  · rintro ⟨writes, hsaves⟩
    have hsize := h.size_le
    have hposition := h.position_le
    have hend : b.position + b.getReadSize ≤ b.nodes.length * b.baseSize := by
      rw [← h.capacity_eq, getReadSize]
      omega
    have hgather : gather b.nodes (writes.map FileWrite.span) = b.unread := gather_tiles h.uniform hsaves.2.2 hend
    have hlength : b.unread.length = b.getReadSize := by
      rw [unread, List.length_take, List.length_drop, h.length_flatten, h.capacity_eq]
      omega
    have hstring : b.toString = .ok b.unread := h.toString
    refine ⟨writes, hsaves, hgather, fun B hB memory fresh k hk => ?_⟩
    rw [hgather, hstring]
    exact readFile_content hB memory fresh (hlength ▸ hk)

/-- Two bytes from the start of the only node. -/
theorem fileRoundTrip_iff_rewound : FileRoundTrip rewound :=
  (fileRoundTrip_iff (by decide) rewound_reachable).mpr (by decide)

/-- One byte has been read. -/
def readOne : ByteArray := { halfFull with position := 1 }

theorem readOne_reachable : Reachable 4 readOne := by
  obtain ⟨memory, hrun⟩ := rewound_reachable
  exact ⟨memory, .next hrun trivial (show step rewound (.read 1) = some readOne by decide)⟩

/-- The first round writes nothing, and the second has no node. -/
theorem readOne_unsaved : ¬∀ B ≥ 1, ∀ b, Reachable B b → FileRoundTrip b := by
  intro h
  obtain ⟨writes, ⟨hwrite, -⟩, -⟩ := h 4 (by decide) readOne readOne_reachable
  have hnull : readOne.writeToFile = .error .nullNode := by decide
  cases hnull.symm.trans hwrite

end ByteArray
end MyHttp
