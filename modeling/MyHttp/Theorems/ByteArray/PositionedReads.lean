import MyHttp.Theorems.ByteArray.Capacity

/-! Reads at a given position. Both members mix it with the cursor: `read` checks the length at the cursor and starts at
    the cursor's node, with the offset of the position in its own node; `getReadBuffers` finds the right node, and counts
    at the cursor what is readable. -/

namespace MyHttp
namespace ByteArray

open Lib.Chunks

variable {b : ByteArray} {len n p : Nat}

/-- What `read(buf, n, p)` is for: the bytes from `p` on, or an exception where there are not as many. -/
def ReadsAt (b : ByteArray) (n p : Nat) : Prop :=
  (b.size - p < n → b.readAt n p = .error (.outOfRange "not enough len")) ∧
  (n ≤ b.size - p → b.readAt n p = .ok ((b.nodes.flatten.drop p).take n))

/-- What `getReadBuffers(buffers, n, p)` is for: the bytes from `p` on, as many as there are. -/
def ViewsAt (b : ByteArray) (n p : Nat) : Prop :=
  ∃ spans, b.getReadBuffersAt n p = .ok (min n (b.size - p), spans) ∧
    gather b.nodes spans = (b.nodes.flatten.drop p).take (min n (b.size - p))

/-- With the room of its first node the loop is that of the other members. -/
theorem views_eq (node : Node) (rest : List Node) (i npos : Nat) (hlen : 0 < len) :
    views (node :: rest) i npos (node.length - npos) len = (walk (node :: rest) i npos len).map Prod.fst := by
  induction rest generalizing node i npos len with
  | nil =>
    rw [views, if_neg hlen.ne', walk, if_neg hlen.ne']
    by_cases hfit : node.length - npos ≥ len
    · dsimp only
      rw [if_pos hfit, if_pos hfit]
      rfl
    · dsimp only
      rw [if_neg hfit, if_neg hfit]
      rfl
  | cons next rest ih =>
    rw [views, if_neg hlen.ne', walk, if_neg hlen.ne']
    by_cases hfit : node.length - npos ≥ len
    · dsimp only
      rw [if_pos hfit, if_pos hfit]
      rfl
    · have hrec := ih next (i + 1) 0 (show 0 < len - (node.length - npos) by omega)
      rw [Nat.sub_zero] at hrec
      dsimp only
      rw [if_neg hfit, if_neg hfit, hrec]
      rcases walk (next :: rest) (i + 1) 0 (len - (node.length - npos)) with f | ⟨spans, cur⟩
      · rfl
      · rfl

theorem not_readsAt (h : b.readAt n p = .error .nullNode) : ¬ReadsAt b n p := by
  rintro ⟨hthrows, hreads⟩
  rcases Nat.lt_or_ge (b.size - p) n with hbeyond | hinside
  · cases h.symm.trans (hthrows hbeyond)
  · cases h.symm.trans (hreads hinside)

theorem readsAt_of_ok {data : List UInt8} (h : b.readAt n p = .ok data) :
    ReadsAt b n p ↔ n ≤ b.size - p ∧ data = (b.nodes.flatten.drop p).take n := by
  constructor
  · rintro ⟨hthrows, hreads⟩
    have hinside : n ≤ b.size - p := by
      by_contra hbeyond
      cases h.symm.trans (hthrows (Nat.not_le.mp hbeyond))
    exact ⟨hinside, Except.ok.inj (h.symm.trans (hreads hinside))⟩
  · rintro ⟨hinside, rfl⟩
    exact ⟨fun hbeyond => absurd hinside (Nat.not_le.mpr hbeyond), fun _ => h⟩

theorem readAt_null {c : Fault} (hsize : n ≤ b.getReadSize) (h : b.walkFrom (p % b.baseSize) n = .error c) :
    b.readAt n p = .error c := by
  unfold ByteArray.readAt
  rw [if_neg (Nat.not_lt.mpr hsize), h]
  rfl

/-- `read` throws too early or too late where the position is not the cursor, and starts at another place unless both are
    in one node. -/
theorem readsAt_iff (h : Inv b) (hp : p ≤ b.size) : ReadsAt b n p ↔
    b.getReadSize < n ∧ b.size - p < n ∨
    n ≤ b.getReadSize ∧ n ≤ b.size - p ∧ b.position < b.capacity ∧
      (b.nodes.flatten.drop (b.start p)).take n = (b.nodes.flatten.drop p).take n := by
  rcases Nat.lt_or_ge b.getReadSize n with hshort | henough
  · have hthrow : b.readAt n p = .error (.outOfRange "not enough len") := by
      unfold ByteArray.readAt
      rw [if_pos hshort]
    constructor
    · rintro ⟨-, hreads⟩
      refine .inl ⟨hshort, ?_⟩
      by_contra hinside
      cases hthrow.symm.trans (hreads (Nat.not_lt.mp hinside))
    · rintro (⟨-, hbeyond⟩ | ⟨hle, -⟩)
      · exact ⟨fun _ => hthrow, fun hinside => absurd hinside (Nat.not_le.mpr hbeyond)⟩
      · exact absurd hle (Nat.not_le.mpr hshort)
  · have hno : ¬(b.getReadSize < n ∧ b.size - p < n) := fun hboth => absurd henough (Nat.not_le.mpr hboth.1)
    rcases (h.position_le.trans h.size_le).lt_or_eq with hlt | hend
    · rcases Nat.lt_or_ge b.capacity (b.start p + n) with hover | hroom
      · have hstart := h.start_lt hlt p
        have hnull : ¬ReadsAt b n p := not_readsAt (readAt_null henough (h.walkFrom_at_fault hlt (by omega) hover))
        rw [iff_false_left hnull, not_or]
        refine ⟨hno, ?_⟩
        rintro ⟨-, hinside, -, hsame⟩
        -- the bytes from `p` on are `n`, those from the start are fewer
        have hlength := congrArg List.length hsame
        have hsize := h.size_le
        rw [List.length_take, List.length_take, List.length_drop, List.length_drop, h.length_flatten] at hlength
        omega
      · rw [readsAt_of_ok (h.readAt henough hlt hroom), or_iff_right hno]
        exact ⟨fun ⟨hinside, hsame⟩ => ⟨henough, hinside, hlt, hsame⟩, fun ⟨_, hinside, _, hsame⟩ => ⟨hinside, hsame⟩⟩
    · have hnull := not_readsAt (readAt_null henough (h.walkFrom_end hend) : b.readAt n p = _)
      rw [iff_false_left hnull, not_or]
      exact ⟨hno, fun hall => hall.2.2.1.ne hend⟩

/-- The length is what is readable at the cursor; with one there is a cursor's node, as long as all of them. -/
theorem Inv.getReadBuffersAt_eq (h : Inv b) (n p : Nat) : b.getReadBuffersAt n p =
    if min n b.getReadSize = 0 then .ok (0, []) else
      (views (b.nodes.drop (p / b.baseSize)) (p / b.baseSize) (p % b.baseSize) (b.baseSize - p % b.baseSize)
        (min n b.getReadSize)).map (min n b.getReadSize, ·) := by
  have hmin : (if n > b.getReadSize then b.getReadSize else n) = min n b.getReadSize :=
    (min_def_lt ..).symm.trans (Nat.min_comm ..)
  unfold getReadBuffersAt
  rw [hmin]
  dsimp only
  split_ifs with hzero
  · rfl
  · have hlt : b.position < b.capacity := by
      have hsize := h.size_le
      rw [getReadSize] at hzero
      omega
    obtain ⟨hcur, hnode⟩ := h.cursor hlt
    have hlength := h.uniform _ (List.getElem_mem hnode)
    rw [hcur, nodesFrom, List.drop_eq_getElem_cons hnode]
    dsimp only
    rw [hlength]
    rcases views _ _ _ _ _ with f | spans
    · rfl
    · rfl

/-- `getReadBuffers` counts what is readable from the cursor on, and goes on from the position. -/
theorem viewsAt_iff (h : Inv b) (hp : p ≤ b.size) : ViewsAt b n p ↔ min n b.getReadSize = min n (b.size - p) := by
  unfold ViewsAt
  rw [h.getReadBuffersAt_eq]
  rcases Nat.eq_zero_or_pos (min n b.getReadSize) with hzero | hpos
  · rw [if_pos hzero]
    constructor
    · rintro ⟨spans, hviews, -⟩
      exact hzero.trans (congrArg Prod.fst (Except.ok.inj hviews))
    · intro hsame
      refine ⟨[], ?_, ?_⟩
      · rw [← hsame, hzero]
      · rw [← hsame, hzero, List.take_zero]
        rfl
  · rw [if_neg hpos.ne']
    constructor
    · rintro ⟨spans, hviews, -⟩
      generalize views _ _ _ _ _ = r at hviews
      rcases r with f | spans'
      · cases hviews
      · exact congrArg Prod.fst (Except.ok.inj hviews)
    · intro hsame
      rw [← hsame]
      generalize min n b.getReadSize = len at hpos hsame ⊢
      have hend : p + len ≤ b.capacity := by
        have hsize := h.size_le
        omega
      have hplace : p / b.baseSize * b.baseSize + p % b.baseSize = p := Nat.div_add_mod' ..
      have hnode : p / b.baseSize < b.nodes.length := by
        rw [h.capacity_eq] at hend
        exact Nat.div_lt_of_lt_mul (by rw [Nat.mul_comm]; omega)
      have hlength := h.uniform _ (List.getElem_mem hnode)
      obtain ⟨spans, hwalk, htiles⟩ := h.walk hnode (Nat.mod_lt p h.base) (hplace.symm ▸ hend)
      rw [List.drop_eq_getElem_cons hnode] at hwalk ⊢
      have hviews := views_eq b.nodes[p / b.baseSize] (b.nodes.drop (p / b.baseSize + 1)) (p / b.baseSize)
        (p % b.baseSize) hpos
      rw [hlength, hwalk] at hviews
      rw [hplace] at htiles
      rw [hviews]
      exact ⟨spans, rfl, gather_tiles h.uniform htiles (h.capacity_eq ▸ hend)⟩

/-- Both members do what they are for exactly where as many bytes are readable from the cursor as from the position and the
    ones at the place where `read` starts are those at the position, or where the position is the cursor and there are not
    enough bytes. -/
theorem positionedReads_iff (h : Inv b) (hp : p ≤ b.size) (n : Nat) : ReadsAt b n p ∧ ViewsAt b n p ↔
    n ≤ b.size - b.position ∧ n ≤ b.size - p ∧ b.position < b.capacity ∧
      (b.nodes.flatten.drop (b.start p)).take n = (b.nodes.flatten.drop p).take n ∨
    p = b.position ∧ b.size - p < n := by
  have hposition := h.position_le
  rw [readsAt_iff h hp, viewsAt_iff h hp, getReadSize]
  constructor
  · rintro ⟨⟨hshort, hbeyond⟩ | hinside, hcount⟩
    · right
      omega
    · exact .inl hinside
  · rintro (hinside | ⟨rfl, hbeyond⟩)
    · have hcount : min n (b.size - b.position) = min n (b.size - p) := by
        rw [Nat.min_eq_left hinside.1, Nat.min_eq_left hinside.2.1]
      exact ⟨.inr hinside, hcount⟩
    · exact ⟨.inl ⟨hbeyond, hbeyond⟩, rfl⟩

/-- The second of two bytes, with the cursor in front of the first. -/
theorem positionedReads_iff_second : ReadsAt rewound 1 1 ∧ ViewsAt rewound 1 1 :=
  (positionedReads_iff (rewound_reachable.inv (by decide)) (by decide) 1).mpr (by decide)

/-- The first of two bytes, with the cursor behind both. -/
theorem positionedRead_throws : ¬∀ (B : Nat) (b : ByteArray) (n p : Nat), 1 ≤ B → Reachable B b → p ≤ b.size →
    ReadsAt b n p ∧ ViewsAt b n p := by
  intro h
  obtain ⟨hreads, -⟩ := h 4 halfFull 1 0 (by decide) halfFull_reachable (by decide)
  cases hreads.2 (by decide)

end ByteArray
end MyHttp
