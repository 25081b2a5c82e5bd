import MyHttp.ByteArray.Values
import MyHttp.Theorems.ByteArray.Capacity

/-! What is written at the cursor, and what is read from there. `Wrote` and `Reads` say it of rows of bytes; the members
    for values are sequences of both. -/

namespace MyHttp
namespace ByteArray

open Lib.Chunks Lib.Octets Lib.Run

variable {α β : Type} {b b' c : ByteArray} {fresh : Nat → Nat → UInt8} {data d e r : List UInt8} {n p v : Nat} {x : UInt8}

/-! ### One access after another -/

theorem bind_ok {f : Access α} {g : α → Access β} {a : α} (h : f b = .ok a b') : (f >>= g) b = g a b' := by
  show EStateM.bind f g b = g a b'
  unfold EStateM.bind
  rw [h]

theorem bind_error {f : Access α} {g : α → Access β} {err : Fault} (h : f b = .error err b') :
    (f >>= g) b = .error err b' := by
  show EStateM.bind f g b = .error err b'
  unfold EStateM.bind
  rw [h]

/-- Where both together return, the first does, and the second after it. -/
theorem bind_inv {f : Access α} {g : α → Access β} {a : β} (h : (f >>= g) b = .ok a c) :
    ∃ a' b', f b = .ok a' b' ∧ g a' b' = .ok a c := by
  rcases hf : f b with ⟨a', b'⟩ | ⟨err, b'⟩
  · exact ⟨a', b', rfl, (bind_ok hf).symm.trans h⟩
  · rw [bind_error hf] at h
    cases h

theorem put_of_ok (h : b.write fresh data = .ok b') : put fresh data b = .ok () b' := by
  unfold put
  rw [h]

theorem write_of_put {u : Unit} (h : put fresh data b = .ok u b') : b.write fresh data = .ok b' := by
  unfold put at h
  rcases hw : b.write fresh data with f | c
  · rw [hw] at h
    cases h
  · rw [hw] at h
    cases h
    rfl

theorem take_of_ok (h : b.read n = .ok (data, b')) : take n b = .ok data b' := by
  unfold take
  rw [h]

theorem read_of_take (h : take n b = .ok data b') : b.read n = .ok (data, b') := by
  unfold take at h
  rcases hr : b.read n with f | ⟨data', c⟩
  · rw [hr] at h
    cases h
  · rw [hr] at h
    cases h
    rfl

/-! ### Written bytes -/

/-- `data` was put at the cursor of `b`, which moved behind it; the row of bytes may have grown. -/
structure Wrote (b : ByteArray) (data : List UInt8) (b' : ByteArray) : Prop where
  inv : Inv b'
  endian : b'.endian = b.endian
  position : b'.position = b.position + data.length
  size : b'.size = max b.size (b.position + data.length)
  bytes : ∃ grown, b.position + data.length ≤ (b.nodes.flatten ++ grown).length ∧
    b'.nodes.flatten = overwrite (b.nodes.flatten ++ grown) b.position data

theorem Inv.position_length (h : Inv b) : b.position ≤ b.nodes.flatten.length := by
  rw [h.length_flatten]
  exact h.position_le.trans h.size_le

theorem Wrote.refl (h : Inv b) : Wrote b [] b := by
  refine ⟨h, rfl, rfl, (Nat.max_eq_left h.position_le).symm, [], ?_, ?_⟩
  · rw [List.append_nil]
    exact h.position_length
  · rw [List.append_nil, overwrite_nil]

theorem Wrote.trans (hd : Wrote b d b') (he : Wrote b' e c) : Wrote b (d ++ e) c := by
  obtain ⟨grown, hfit, hbytes⟩ := hd.bytes
  obtain ⟨grown', hfit', hbytes'⟩ := he.bytes
  rw [hd.position] at hfit' hbytes'
  have hlength : b.position + d.length ≤ (b.nodes.flatten ++ grown ++ grown').length := by
    rw [List.length_append]
    exact hfit.trans (Nat.le_add_right ..)
  have hrow : b'.nodes.flatten ++ grown' = overwrite (b.nodes.flatten ++ grown ++ grown') b.position d := by
    rw [hbytes, overwrite_append_left hfit]
  rw [hrow, length_overwrite hlength] at hfit'
  refine ⟨he.inv, he.endian.trans hd.endian, ?_, ?_, grown ++ grown', ?_, ?_⟩
  · rw [he.position, hd.position, List.length_append, Nat.add_assoc]
  · rw [he.size, hd.size, hd.position, List.length_append]
    omega
  · rw [List.length_append, ← Nat.add_assoc, ← List.append_assoc]
    exact hfit'
  · rw [hbytes', hrow, overwrite_overwrite e hlength, List.append_assoc]

theorem write_fields (h : b.write fresh data = .ok b') : b'.endian = b.endian ∧ b'.baseSize = b.baseSize := by
  obtain ⟨added, hg⟩ := grown_addCapacity fresh b data.length
  unfold ByteArray.write at h
  split_ifs at h
  · obtain rfl := Except.ok.inj h
    exact ⟨rfl, rfl⟩
  · obtain ⟨⟨spans, cur⟩, -, hwritten⟩ := bind_eq_ok.mp h
    obtain rfl := Except.ok.inj hwritten
    exact ⟨hg.endian_eq, hg.baseSize_eq⟩

/-- With room for the bytes they are written; where the room was there, the capacity stays. -/
theorem Inv.put (h : Inv b) (hroom : data.length ≤ (b.addCapacity fresh data.length).getCapacity) :
    ∃ b', ByteArray.put fresh data b = .ok () b' ∧ Wrote b data b' ∧
      b'.capacity = (b.addCapacity fresh data.length).capacity := by
  rcases Nat.eq_zero_or_pos data.length with hzero | hpos
  · obtain rfl := List.length_eq_zero_iff.mp hzero
    exact ⟨b, rfl, .refl h, rfl⟩
  · obtain ⟨b', hw, hinv, -, hposition, hsize, hbytes⟩ := h.write hpos hroom
    obtain ⟨added, hg⟩ := grown_addCapacity fresh b data.length
    have hgrown : Inv (b.addCapacity fresh data.length) := h.addCapacity data.length
    have hend := hgrown.getCapacity_room hroom
    rw [hg.position_eq, ← hgrown.length_flatten] at hend
    refine ⟨b', put_of_ok hw, ⟨hinv, (write_fields hw).1, hposition, hsize, added.flatten, ?_, ?_⟩, ?_⟩
    · rw [← hg.flatten_eq]
      exact hend
    · rw [← hg.flatten_eq]
      exact hbytes
    · rw [← hinv.length_flatten, hbytes, length_overwrite hend, hgrown.length_flatten]

theorem addCapacity_of_room (h : n ≤ b.getCapacity) : b.addCapacity fresh n = b := by
  unfold ByteArray.addCapacity
  dsimp only
  split_ifs
  · rfl
  · rfl

/-- Bytes for which there is room already. -/
theorem Inv.put_room (h : Inv b) (fresh : Nat → Nat → UInt8) (hroom : data.length ≤ b.getCapacity) :
    ∃ b', ByteArray.put fresh data b = .ok () b' ∧ Wrote b data b' ∧ b'.capacity = b.capacity := by
  have heq : b.addCapacity fresh data.length = b := addCapacity_of_room hroom
  have hfree : data.length ≤ (b.addCapacity fresh data.length).getCapacity := by rwa [heq]
  obtain ⟨b', hput, hwrote, hcapacity⟩ := h.put hfree
  exact ⟨b', hput, hwrote, by rw [hcapacity, heq]⟩

theorem Inv.put_iff (h : Inv b) (fresh : Nat → Nat → UInt8) (hdata : data ≠ []) :
    (∃ b', ByteArray.put fresh data b = .ok () b' ∧ Wrote b data b') ↔ CapacityOk b data.length := by
  have hfree : data.length ≤ (b.addCapacity fresh data.length).getCapacity ↔ CapacityOk b data.length := free_iff h
  rw [← hfree]
  constructor
  · rintro ⟨b', hput, -⟩
    by_contra hno
    have hfault := h.write_fault (List.length_pos_iff.mpr hdata) (Nat.not_le.mp hno)
    cases hfault.symm.trans (write_of_put hput)
  · intro hroom
    obtain ⟨b', hput, hwrote, -⟩ := h.put hroom
    exact ⟨b', hput, hwrote⟩

/-- Where a `write` returns, it has written. -/
theorem Inv.wrote {u : Unit} (h : Inv b) (hput : ByteArray.put fresh data b = .ok u b') : Wrote b data b' := by
  by_cases hdata : data = []
  · subst hdata
    cases write_of_put hput
    exact .refl h
  · have hok : CapacityOk b data.length := by
      have hfree : data.length ≤ (b.addCapacity fresh data.length).getCapacity ↔ CapacityOk b data.length := free_iff h
      by_contra hno
      rw [← hfree, Nat.not_le] at hno
      cases (h.write_fault (List.length_pos_iff.mpr hdata) hno).symm.trans (write_of_put hput)
    obtain ⟨c, hc, hwrote⟩ := (h.put_iff fresh hdata).mpr hok
    cases hc.symm.trans hput
    exact hwrote

/-! ### Bytes to be read -/

/-- `data` stands at the cursor, in the used part. -/
structure Reads (b : ByteArray) (data : List UInt8) : Prop where
  inv : Inv b
  fits : b.position + data.length ≤ b.size
  bytes : (b.nodes.flatten.drop b.position).take data.length = data

/-- The cursor moved on by `n`. -/
structure Passed (b : ByteArray) (n : Nat) (b' : ByteArray) : Prop where
  endian : b'.endian = b.endian
  nodes : b'.nodes = b.nodes
  capacity : b'.capacity = b.capacity
  size : b'.size = b.size
  position : b'.position = b.position + n

theorem Passed.refl : Passed b 0 b := ⟨rfl, rfl, rfl, rfl, rfl⟩

theorem Passed.trans {m : Nat} (h : Passed b n b') (h' : Passed b' m c) : Passed b (n + m) c where
  endian := h'.endian.trans h.endian
  nodes := h'.nodes.trans h.nodes
  capacity := h'.capacity.trans h.capacity
  size := h'.size.trans h.size
  position := by rw [h'.position, h.position, Nat.add_assoc]

theorem passed_of_read (h : b.read n = .ok (data, b')) : Passed b n b' := by
  unfold ByteArray.read at h
  split_ifs at h
  obtain ⟨⟨spans, cur⟩, -, hread⟩ := bind_eq_ok.mp h
  cases hread
  exact ⟨rfl, rfl, rfl, rfl, rfl⟩

/-- Where a `read` returns, it has read the bytes at the cursor. -/
theorem Inv.took (h : Inv b) (htake : ByteArray.take n b = .ok data b') :
    Inv b' ∧ data = (b.nodes.flatten.drop b.position).take n ∧ data.length = n ∧ Passed b n b' := by
  have hread := read_of_take htake
  have hpassed := passed_of_read hread
  rcases Nat.eq_zero_or_pos n with rfl | hpos
  · rcases read_zero b with hnull | hok
    · cases hnull.symm.trans hread
    · cases hok.symm.trans hread
      exact ⟨h, List.take_zero.symm, rfl, hpassed⟩
  · have hle : n ≤ b.getReadSize := by
      by_contra hgt
      rw [ByteArray.read, if_pos (Nat.not_le.mp hgt)] at hread
      cases hread
    obtain ⟨c, hc, hinv, -⟩ := h.read hpos hle
    cases hc.symm.trans hread
    have hsize := h.size_le
    have hposition := h.position_le
    refine ⟨hinv, rfl, ?_, hpassed⟩
    rw [getReadSize] at hle
    rw [List.length_take, List.length_drop, h.length_flatten]
    omega

theorem Reads.take (h : Reads b (d ++ r)) (hd : 0 < d.length) :
    ∃ b', ByteArray.take d.length b = .ok d b' ∧ Reads b' r ∧ Passed b d.length b' := by
  have hfits := h.fits
  rw [List.length_append] at hfits
  have hle : d.length ≤ b.getReadSize := by
    rw [getReadSize]
    omega
  obtain ⟨b', hread, hinv, -, hnodes, hposition, hsize⟩ := h.inv.read hd hle
  have hbytes := h.bytes
  rw [List.length_append, List.take_add, List.drop_drop] at hbytes
  have hlength : ((b.nodes.flatten.drop b.position).take d.length).length = d.length := by
    rw [List.length_take, List.length_drop, h.inv.length_flatten]
    have := h.inv.size_le
    omega
  obtain ⟨hfront, hback⟩ := List.append_inj hbytes hlength
  rw [hfront] at hread
  refine ⟨b', take_of_ok hread, ⟨hinv, ?_, ?_⟩, passed_of_read hread⟩
  · rw [hposition, hsize, Nat.add_assoc]
    exact hfits
  · rw [hnodes, hposition]
    exact hback

theorem setPosition_endian (h : b.setPosition v = .ok b') : b'.endian = b.endian ∧ b'.capacity = b.capacity := by
  unfold ByteArray.setPosition at h
  rcases Nat.lt_or_ge b.capacity v with hfar | hnear
  · rw [if_pos hfar] at h
    cases h
  · rw [if_neg (Nat.not_lt.mpr hnear)] at h
    obtain ⟨cur, -, hmoved⟩ := bind_eq_ok.mp h
    cases hmoved
    exact ⟨rfl, rfl⟩

/-- Back at the start, what was written can be read. -/
theorem Wrote.back (h : Wrote b data b') : ∃ c, b'.setPosition b.position = .ok c ∧ Reads c data ∧
    c.endian = b.endian ∧ c.capacity = b'.capacity ∧ c.position = b.position := by
  obtain ⟨grown, hfit, hbytes⟩ := h.bytes
  have hle : b.position ≤ b'.capacity := by
    have := h.inv.position_le.trans h.inv.size_le
    rw [h.position] at this
    omega
  obtain ⟨c, hc, hinv, -, hnodes, hposition, hsize⟩ := h.inv.setPosition hle
  obtain ⟨hendian, hcapacity⟩ := setPosition_endian hc
  refine ⟨c, hc, ⟨hinv, ?_, ?_⟩, hendian.trans h.endian, hcapacity, hposition⟩
  · rw [hposition, hsize, h.size]
    omega
  · have htake : ((b.nodes.flatten ++ grown).take b.position).length = b.position := by
      rw [List.length_take]
      omega
    rw [hnodes, hposition, hbytes, overwrite, List.append_assoc, List.drop_left' htake, List.take_left' rfl]

/-- The value that was written is read back from the start, up to the same place. -/
def RoundTrips (write : Access Unit) (read : Access α) (value : α) (b : ByteArray) : Prop :=
  ∃ b₁ b₂ b₃, write b = .ok () b₁ ∧ b₁.setPosition b.position = .ok b₂ ∧ read b₂ = .ok value b₃ ∧
    b₃.position = b₁.position

/-- What is to be shown of the reader, once the writer and the way back are known. -/
theorem roundTrips_iff_read {write : Access Unit} {read : Access α} {value : α} {b₁ b₂ : ByteArray}
    (hwrite : write b = .ok () b₁) (hback : b₁.setPosition b.position = .ok b₂) :
    RoundTrips write read value b ↔ ∃ b₃, read b₂ = .ok value b₃ ∧ b₃.position = b₁.position := by
  constructor
  · rintro ⟨c₁, c₂, b₃, hwrite', hback', hread⟩
    cases hwrite.symm.trans hwrite'
    cases hback.symm.trans hback'
    exact ⟨b₃, hread⟩
  · rintro ⟨b₃, hread⟩
    exact ⟨b₁, b₂, b₃, hwrite, hback, hread⟩

/-! ### Byte order -/

@[simp] theorem length_image {order : Endian} : (image order n v).length = n := by
  cases order with
  | little => exact length_toBytes
  | big => exact List.length_reverse.trans length_toBytes

theorem ofImage_lt {order : Endian} : ofImage order d < 256 ^ d.length := by
  cases order with
  | little => exact ofBytes_lt
  | big => exact (ofBytes_lt (l := d.reverse)).trans_eq (by rw [List.length_reverse])

theorem byteswap_ofBytes (h : d.length = n) : byteswap n (ofBytes d) = ofBytes d.reverse := by
  rw [byteswap, ← h, toBytes_ofBytes]

/-- The writers store the image of the value in the order of the array, whatever the machine's is. -/
theorem writeF_eq {host : Endian} : writeF host fresh n v b = put fresh (image b.endian n v) b := by
  have hswap : toBytes n (byteswap n v) = (toBytes n v).reverse := by
    have hlength : (toBytes n v).reverse.length = n := by rw [List.length_reverse, length_toBytes]
    rw [byteswap]
    nth_rewrite 1 [← hlength]
    exact toBytes_ofBytes
  have himage : image host n (if b.endian ≠ host then byteswap n v else v) = image b.endian n v := by
    rcases host with _ | _ <;> rcases b.endian with _ | _
    · rfl
    · exact hswap
    · exact (congrArg List.reverse hswap).trans (List.reverse_reverse _)
    · rfl
  show put fresh (image host n (if b.endian ≠ host then byteswap n v else v)) b = _
  rw [himage]

/-- The readers take the bytes in the order of the array. -/
theorem readF_ok {host : Endian} (htake : take n b = .ok d b') (hd : d.length = n) (hendian : b'.endian = b.endian) :
    readF host n b = .ok (ofImage b.endian d) b' := by
  have hvalue : (if b'.endian = host then ofImage host d else byteswap n (ofImage host d)) = ofImage b.endian d := by
    rw [hendian]
    rcases host with _ | _ <;> rcases b.endian with _ | _
    · rfl
    · exact byteswap_ofBytes hd
    · exact (byteswap_ofBytes (d := d.reverse) (by rwa [List.length_reverse])).trans
        (congrArg ofBytes (List.reverse_reverse d))
    · rfl
  unfold readF
  rw [bind_ok htake]
  exact congrArg (EStateM.Result.ok · b') hvalue

theorem readF_inv {host : Endian} (h : Inv b) (hread : readF host n b = .ok v b') :
    ∃ data, take n b = .ok data b' ∧ v = ofImage b.endian data := by
  obtain ⟨data, c, htake, -⟩ := bind_inv (f := take n) hread
  obtain ⟨-, -, hlength, hpassed⟩ := h.took htake
  have hok : readF host n b = .ok (ofImage b.endian data) c := readF_ok htake hlength hpassed.endian
  cases hok.symm.trans hread
  exact ⟨data, htake, rfl⟩

theorem ofImage_image {order : Endian} : ofImage order (image order n v) = v % 256 ^ n := by
  cases order with
  | little => exact ofBytes_toBytes
  | big => exact (congrArg ofBytes (List.reverse_reverse _)).trans ofBytes_toBytes

theorem readF_image {host : Endian} (hn : 0 < n) (h : Reads b (image b.endian n v ++ r)) :
    ∃ b', readF host n b = .ok (v % 256 ^ n) b' ∧ Reads b' r ∧ Passed b n b' := by
  obtain ⟨b', htake, hreads, hpassed⟩ := h.take (by rwa [length_image])
  rw [length_image] at htake hpassed
  refine ⟨b', ?_, hreads, hpassed⟩
  rw [readF_ok htake length_image hpassed.endian, ofImage_image]

theorem readFuint8_cons (h : Reads b (x :: r)) : ∃ b', readFuint8 b = .ok x b' ∧ Reads b' r ∧ Passed b 1 b' := by
  obtain ⟨b', htake, hreads, hpassed⟩ := Reads.take (d := [x]) h Nat.one_pos
  exact ⟨b', bind_ok htake, hreads, hpassed⟩

end ByteArray
end MyHttp
