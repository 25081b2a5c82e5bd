import MyHttp.Theorems.ByteArray.Access
import MyHttp.Theorems.Stream

/-! Iovecs of the bytes at the cursor: to be sent, and to be filled by a receiver. -/

namespace MyHttp
namespace ByteArray

open Lib.Chunks

variable {b b' c : ByteArray} {fresh : Nat → Nat → UInt8} {d : List UInt8} {spans : List Span} {len n : Nat}

/-! ### To be sent -/

/-- The bytes from the cursor to the end. -/
def unread (b : ByteArray) : List UInt8 := (b.nodes.flatten.drop b.position).take b.getReadSize

/-- What is sent is taken from the readable bytes, each iovec from one node, and the rest stays readable. -/
theorem cursorViews (h : Inv b) (len : Nat) :
    (∃ spans, b.getReadBuffers len = .ok spans ∧ (spans.map Span.len).sum = min len b.getReadSize ∧
      (∀ sp ∈ spans, sp.chunk < b.nodes.length ∧ sp.off + sp.len ≤ b.baseSize) ∧
      gather b.nodes spans = b.unread.take len) ∧
    b.toString = .ok b.unread ∧
    ∀ k ≤ min len b.getReadSize, ∃ b', SocketStream.write true b len k = .ok (k, b.unread.take k, b') ∧
      Inv b' ∧ b'.position = b.position + k ∧ b'.unread = b.unread.drop k := by
  have hsize := h.size_le
  have hposition := h.position_le
  refine ⟨?_, h.toString, fun k hk => ?_⟩
  · obtain ⟨spans, hget, htiles, hgather⟩ := h.getReadBuffers len
    have hend : b.position + min len b.getReadSize ≤ b.nodes.length * b.baseSize := by
      rw [← h.capacity_eq, getReadSize]
      omega
    refine ⟨spans, hget, htiles.sum_len, fun sp hsp => ⟨htiles.chunk_lt hend sp hsp, (htiles.inside sp hsp).2.1⟩, ?_⟩
    rw [hgather, unread, List.take_take]
  · have hrt : (k : Int) ≤ (min len b.getReadSize : Nat) := Int.ofNat_le.mpr hk
    obtain ⟨b', hwrite, hinv, -, hnodes, hposition', hsize'⟩ := SocketStream.write_eq h hrt
    rw [Int.toNat_natCast] at hwrite hposition'
    refine ⟨b', ?_, hinv, hposition', ?_⟩
    · rw [hwrite, unread, List.take_take, Nat.min_eq_left (hk.trans (Nat.min_le_right ..))]
    · rw [unread, unread, List.drop_take, List.drop_drop, hnodes, hposition', getReadSize, getReadSize, hsize', hposition',
        Nat.sub_sub]

/-- One of two bytes is sent. -/
theorem cursorViews_rewound : ∃ b', SocketStream.write true rewound 5 1 = .ok (1, [1], b') ∧ b'.unread = [2] := by
  obtain ⟨b', hwrite, -, -, hrest⟩ := (cursorViews (rewound_reachable.inv (by decide)) 5).2.2 1 (by decide)
  exact ⟨b', hwrite, hrest⟩

/-! ### To be filled -/

/-- What is stored, from the first byte on. -/
def content (b : ByteArray) : List UInt8 := b.nodes.flatten.take b.size

/-- The fields determine the state when they agree with each other. -/
theorem Inv.ext (h : Inv b) (h' : Inv b') (hbase : b.baseSize = b'.baseSize) (hendian : b.endian = b'.endian)
    (hbytes : b.nodes.flatten = b'.nodes.flatten) (hposition : b.position = b'.position) (hsize : b.size = b'.size) :
    b = b' := by
  have hcapacity : b.capacity = b'.capacity := by rw [← h.length_flatten, ← h'.length_flatten, hbytes]
  have hcount : b.nodes.length = b'.nodes.length := by
    refine Nat.eq_of_mul_eq_mul_right h.base ?_
    rw [← h.capacity_eq, hcapacity, h'.capacity_eq, hbase]
  have hlengths : b.nodes.map List.length = b'.nodes.map List.length := by
    rw [List.map_congr_left h.uniform, List.map_congr_left h'.uniform, List.map_const', List.map_const', hcount, hbase]
  have hnodes : b.nodes = b'.nodes := List.eq_iff_flatten_eq.mpr ⟨hbytes, hlengths⟩
  have hcur : b.cur = b'.cur := by rw [h.cur_eq, h'.cur_eq, hbase, hposition, hcount]
  rcases b with ⟨_, _, _, _, _, _, _⟩
  rcases b' with ⟨_, _, _, _, _, _, _⟩
  simp only [mk.injEq]
  exact ⟨hbase, hposition, hcapacity, hsize, hendian, hnodes, hcur⟩

/-- What was written determines the content, however the row has grown. -/
theorem Wrote.content (h : Inv b) (hw : Wrote b d b') : b'.content =
    (b.nodes.flatten.take b.position ++ d ++ b.nodes.flatten.drop (b.position + d.length)).take
      (max b.size (b.position + d.length)) := by
  obtain ⟨grown, -, hbytes⟩ := hw.bytes
  have hposition := h.position_length
  have hroom := h.position_le.trans h.size_le
  have hsize := h.size_le
  rw [ByteArray.content, hbytes, hw.size, overwrite, List.take_append_of_le_length hposition, List.drop_append,
    ← List.append_assoc, List.take_append_of_le_length]
  rw [List.length_append, List.length_append, List.length_take, List.length_drop, h.length_flatten]
  omega

theorem Wrote.of_grown {added : List Node} (hg : Grown b c added) (hw : Wrote c d b') : Wrote b d b' := by
  obtain ⟨grown, hfit, hbytes⟩ := hw.bytes
  rw [hg.flatten_eq, hg.position_eq, List.append_assoc] at hfit hbytes
  exact ⟨hw.inv, hw.endian.trans hg.endian_eq, hg.position_eq ▸ hw.position, hg.position_eq ▸ hg.size_eq ▸ hw.size,
    added.flatten ++ grown, hfit, hbytes⟩

/-- Filled and passed over, the spans at the cursor leave what `write` leaves. -/
theorem Inv.fill (h : Inv c) (htiles : Tiles c.baseSize c.position spans len) (hroom : len ≤ c.getCapacity)
    (hpos : 1 ≤ d.length) (hd : d.length ≤ len) :
    ∃ filled, { c with nodes := scatter c.nodes spans d }.setPosition (c.position + d.length) = .ok filled ∧
      filled.baseSize = c.baseSize ∧ Wrote c d filled ∧ ∀ fresh, c.write fresh d = .ok filled := by
  have hend := h.getCapacity_room hroom
  obtain ⟨hflat, hu, hnodes⟩ := scatter_tiles h.uniform htiles (h.capacity_eq ▸ hend) hd
  have hscattered : Inv { c with nodes := scatter c.nodes spans d } := h.setNodes hu hnodes
  have hfit : c.position + d.length ≤ c.capacity := by omega
  obtain ⟨filled, hback, hinv, hbase, hkept, hposition, hsize⟩ := hscattered.setPosition hfit
  have hendian : filled.endian = c.endian := (setPosition_endian hback).1
  have hbytes : filled.nodes.flatten = overwrite c.nodes.flatten c.position d := hkept ▸ hflat
  refine ⟨filled, hback, hbase, ⟨hinv, hendian, hposition, hsize, [], ?_, ?_⟩, fun fresh => ?_⟩
  · rw [List.append_nil, h.length_flatten]
    exact hfit
  · rw [List.append_nil]
    exact hbytes
  · have heq : c.addCapacity fresh d.length = c := addCapacity_of_room (hd.trans hroom)
    have hfree : d.length ≤ (c.addCapacity fresh d.length).getCapacity := by
      rw [heq]
      exact hd.trans hroom
    obtain ⟨b', hw, hinv', hbase', hposition', hsize', hbytes'⟩ := h.write hpos hfree
    have hsame : b' = filled := by
      rw [heq] at hbytes'
      exact hinv'.ext hinv (hbase'.trans hbase.symm) ((write_fields hw).1.trans hendian.symm) (hbytes'.trans hbytes.symm)
        (hposition'.trans hposition.symm) (hsize'.trans hsize.symm)
    rw [hw, hsame]

/-- At one place of the row, the null pointer is there where the capacity ends. -/
theorem Inv.cur_eq_iff (h : Inv b) (h' : Inv b') (hbase : b.baseSize = b'.baseSize) (hposition : b.position = b'.position) :
    b.cur = b'.cur ↔ (b.position = b.capacity ↔ b'.position = b'.capacity) := by
  rcases (h.position_le.trans h.size_le).lt_or_eq with hlt | hend <;>
    rcases (h'.position_le.trans h'.size_le).lt_or_eq with hlt' | hend'
  · rw [(h.cursor hlt).1, (h'.cursor hlt').1, hbase, hposition]
    exact iff_of_true rfl ⟨fun he => absurd he (hposition ▸ hlt.ne), fun he => absurd he hlt'.ne⟩
  · rw [(h.cursor hlt).1, h'.cursor_end hend']
    exact iff_of_false nofun fun hsame => hlt.ne (hsame.mpr hend')
  · rw [h.cursor_end hend, (h'.cursor hlt').1]
    exact iff_of_false nofun fun hsame => hlt'.ne (hsame.mp hend)
  · rw [h.cursor_end hend, h'.cursor_end hend']
    exact iff_of_true rfl ⟨fun _ => hend', fun _ => hend⟩

/-- `getWriteBuffers`, also for no byte. -/
theorem Inv.writeBuffers (h : Inv b) (fresh : Nat → Nat → UInt8) (hroom : len ≤ (b.addCapacity fresh len).getCapacity) :
    ∃ spans, b.getWriteBuffers fresh len = .ok (spans, b.addCapacity fresh len) ∧
      Tiles b.baseSize b.position spans len := by
  rcases Nat.eq_zero_or_pos len with rfl | hpos
  · rw [addCapacity_of_room (Nat.zero_le _)]
    exact ⟨[], rfl, .nil⟩
  · exact h.getWriteBuffers hpos hroom

/-- The iovecs for `len` bytes are apart from each other and cover the place of these bytes, and nothing else has changed.
    Filling them and moving the cursor is `write` on that state; it is `write` on the state before, wherever that has
    its room, but for the cursor's node at the end of one capacity and not of the other. -/
theorem scatterWrites (h : Inv b) (fresh : Nat → Nat → UInt8) (hroom : len ≤ (b.addCapacity fresh len).getCapacity) :
    ∃ spans c, b.getWriteBuffers fresh len = .ok (spans, c) ∧ (spans.map Span.len).sum = len ∧
      (spans.Pairwise fun s t => s.start b.baseSize + s.len ≤ t.start b.baseSize) ∧
      (∀ sp ∈ spans, sp.chunk < c.nodes.length ∧ sp.off + sp.len ≤ b.baseSize ∧
        b.position ≤ sp.start b.baseSize ∧ sp.start b.baseSize + sp.len ≤ b.position + len) ∧
      c.position = b.position ∧ c.size = b.size ∧ c.content = b.content ∧
      ∀ d : List UInt8, 1 ≤ d.length → d.length ≤ len → ∃ filled,
        { c with nodes := scatter c.nodes spans d }.setPosition (b.position + d.length) = .ok filled ∧
        (∀ fresh', c.write fresh' d = .ok filled) ∧
        ∀ fresh' b', b.write fresh' d = .ok b' → filled.content = b'.content ∧ filled.position = b'.position ∧
          filled.size = b'.size ∧
          (filled.cur = b'.cur ↔ (filled.position = filled.capacity ↔ b'.position = b'.capacity)) := by
  obtain ⟨added, hg⟩ := grown_addCapacity fresh b len
  obtain ⟨spans, hbuffers, htiles⟩ := h.writeBuffers fresh hroom
  have hc : Inv (b.addCapacity fresh len) := h.addCapacity len
  have hend := hc.getCapacity_room hroom
  rw [hc.capacity_eq, hg.position_eq, hg.baseSize_eq] at hend
  refine ⟨spans, _, hbuffers, htiles.sum_len, htiles.apart, fun sp hsp => ?_, hg.position_eq, hg.size_eq, ?_, ?_⟩
  · obtain ⟨-, hoff, hplace⟩ := htiles.inside sp hsp
    exact ⟨htiles.chunk_lt hend sp hsp, hoff, hplace⟩
  · have hsize := h.size_le
    rw [← h.length_flatten] at hsize
    rw [content, content, hg.flatten_eq, hg.size_eq, List.take_append_of_le_length hsize]
  · intro d hpos hd
    rw [← hg.baseSize_eq, ← hg.position_eq] at htiles
    obtain ⟨filled, hback, hbase, hfilled, hsame⟩ := hc.fill htiles hroom hpos hd
    rw [hg.position_eq] at hback
    refine ⟨filled, hback, hsame, fun fresh' b' hw => ?_⟩
    have hfilled : Wrote b d filled := hfilled.of_grown hg
    have hwrote : Wrote b d b' := h.wrote (put_of_ok hw)
    have hposition : filled.position = b'.position := hfilled.position.trans hwrote.position.symm
    have hbase' : filled.baseSize = b'.baseSize := (hbase.trans hg.baseSize_eq).trans (write_fields hw).2.symm
    exact ⟨(hfilled.content h).trans (hwrote.content h).symm, hposition, hfilled.size.trans hwrote.size.symm,
      hfilled.inv.cur_eq_iff hwrote.inv hbase' hposition⟩

/-- Six bytes at the middle of the only node. -/
theorem scatterWrites_halfFull : ∃ spans c, halfFull.getWriteBuffers (fun _ _ => 0) 6 = .ok (spans, c) ∧
    (spans.map Span.len).sum = 6 := by
  obtain ⟨spans, c, hbuffers, hsum, -⟩ :=
    scatterWrites (halfFull_reachable.inv (by decide)) (fun _ _ => 0) (show 6 ≤ _ by decide)
  exact ⟨spans, c, hbuffers, hsum⟩

/-- Two of these six bytes fill the node: `write` leaves the null pointer, the other way the node that was added. -/
theorem scatterWrite_node : ¬∀ (b : ByteArray) (fresh : Nat → Nat → UInt8) (len : Nat) (d : List UInt8), Inv b →
    len ≤ (b.addCapacity fresh len).getCapacity → 1 ≤ d.length → d.length ≤ len →
    ∃ spans c filled b', b.getWriteBuffers fresh len = .ok (spans, c) ∧
      { c with nodes := scatter c.nodes spans d }.setPosition (b.position + d.length) = .ok filled ∧
      b.write fresh d = .ok b' ∧ filled.cur = b'.cur := by
  intro h
  obtain ⟨spans, c, filled, b', hbuffers, hback, hwrite, hcur⟩ := h halfFull (fun _ _ => 0) 6 [3, 4]
    (halfFull_reachable.inv (by decide)) (by decide) (by decide) (by decide)
  cases hbuffers
  cases hback
  cases hwrite
  cases hcur

end ByteArray
end MyHttp
