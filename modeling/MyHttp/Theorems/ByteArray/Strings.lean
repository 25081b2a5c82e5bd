import MyHttp.Theorems.ByteArray.Varints

/-! Strings with their length in front of them. The writers cut the length down to the width of the prefix; the reader that
    belongs to the varint prefix takes eight bytes for it. -/

namespace MyHttp
namespace ByteArray

open Lib.Chunks Lib.Octets

variable {b b' c : ByteArray} {host : Endian} {fresh : Nat → Nat → UInt8} {l s : List UInt8} {n v room : Nat}

/-! ### Reading no byte -/

theorem Inv.take_zero (h : Inv b) (hlt : b.position < b.capacity) : ByteArray.take 0 b = .ok [] b := by
  obtain ⟨hcur, hnode⟩ := h.cursor hlt
  have hwalk : b.walkFrom (b.position % b.baseSize) 0 = .ok ([], b.cur) := by
    rw [ByteArray.walkFrom, hcur, nodesFrom, Option.getD_some, List.drop_eq_getElem_cons hnode]
    rfl
  refine take_of_ok ?_
  unfold ByteArray.read
  rw [if_neg (Nat.not_lt_zero _), hwalk]
  rfl

/-- Behind the last node there is no node to look at. -/
theorem Inv.take_zero_end (h : Inv b) (hend : b.position = b.capacity) : ByteArray.take 0 b = .error .nullNode b := by
  unfold ByteArray.take ByteArray.read
  rw [if_neg (Nat.not_lt_zero _), h.walkFrom_end hend]
  rfl

/-! ### A prefix of fixed width -/

theorem Inv.writeStringF (h : Inv b) (host : Endian) (fresh : Nat → Nat → UInt8) (hroom : n + s.length ≤ b.getCapacity) :
    ∃ b', ByteArray.writeStringF host fresh n s b = .ok () b' ∧
      Wrote b (image b.endian n (s.length % 256 ^ n) ++ s) b' ∧ b'.capacity = b.capacity := by
  have hprefix : (image b.endian n (s.length % 256 ^ n)).length ≤ b.getCapacity := by
    rw [length_image]
    omega
  obtain ⟨b₁, hput, hwrote, hcapacity⟩ := h.put_room fresh hprefix
  have hrest : s.length ≤ b₁.getCapacity := by
    have hposition := hwrote.position
    rw [length_image] at hposition
    rw [getCapacity] at hroom ⊢
    omega
  obtain ⟨b', hput', hwrote', hcapacity'⟩ := hwrote.inv.put_room fresh hrest
  refine ⟨b', ?_, hwrote.trans hwrote', hcapacity'.trans hcapacity⟩
  have hwrite : writeF host fresh n (s.length % 256 ^ n) b = .ok () b₁ := writeF_eq.trans hput
  exact (bind_ok hwrite).trans hput'

/-- The reader takes as many bytes as the prefix says. -/
theorem readStringF_eq (host : Endian) (hn : 0 < n) (h : Reads b (image b.endian n v ++ s)) :
    ∃ b', readStringF host n b = take (v % 256 ^ n) b' ∧ Reads b' s ∧ Passed b n b' := by
  obtain ⟨b', hread, hreads, hpassed⟩ := readF_image hn h
  exact ⟨b', bind_ok hread, hreads, hpassed⟩

theorem stringF_roundTrips_iff (h : Inv b) (hn : 0 < n) (hroom : n + s.length ≤ b.getCapacity) :
    RoundTrips (writeStringF host fresh n s) (readStringF host n) s b ↔
      s.length < 256 ^ n ∧ ¬(s = [] ∧ b.position + n = b.capacity) := by
  obtain ⟨b₁, hwrite, hwrote, hcapacity⟩ := h.writeStringF host fresh hroom
  obtain ⟨b₂, hback, hreads, hendian, hcapacity₂, hposition⟩ := hwrote.back
  rw [← hendian] at hreads
  obtain ⟨c, hread, hrest, hpassed⟩ := readStringF_eq host hn hreads
  rw [Nat.mod_mod] at hread
  have hc : c.position = b.position + n := by rw [hpassed.position, hposition]
  have hcap : c.capacity = b.capacity := by rw [hpassed.capacity, hcapacity₂, hcapacity]
  have hend : b₁.position = c.position + s.length := by
    rw [hwrote.position, List.length_append, length_image, hc, Nat.add_assoc]
  rw [roundTrips_iff_read hwrite hback, hread, hend]
  constructor
  · rintro ⟨b₃, htake, -⟩
    obtain ⟨-, -, hlength, -⟩ := hrest.inv.took htake
    refine ⟨hlength ▸ Nat.mod_lt _ (Nat.pow_pos (by decide)), ?_⟩
    rintro ⟨rfl, hfull⟩
    have hnull := hrest.inv.take_zero_end (hc.trans (hfull.trans hcap.symm))
    cases hnull.symm.trans htake
  · rintro ⟨hshort, hnode⟩
    rw [Nat.mod_eq_of_lt hshort]
    by_cases hs : s = []
    · subst hs
      have hlt : c.position < c.capacity := by
        have hle := hrest.inv.position_le.trans hrest.inv.size_le
        have hne : b.position + n ≠ b.capacity := fun heq => hnode ⟨rfl, heq⟩
        omega
      exact ⟨c, hrest.inv.take_zero hlt, rfl⟩
    · have hreads : Reads c (s ++ []) := by rwa [List.append_nil]
      obtain ⟨b₃, htake, -, hpassed'⟩ := hreads.take (List.length_pos_iff.mpr hs)
      exact ⟨b₃, htake, hpassed'.position⟩

/-- With room for it, a string comes back exactly if its length fits into the prefix and, for the empty string, a byte of
    the capacity is left behind the prefix. -/
theorem fixedStrings_iff (h : Inv b) (host : Endian) (fresh : Nat → Nat → UInt8) (s : List UInt8) :
    (2 + s.length ≤ b.getCapacity → (RoundTrips (writeString16 host fresh s) (readStringF16 host) s b ↔
      s.length < 2 ^ 16 ∧ ¬(s = [] ∧ b.position + 2 = b.capacity))) ∧
    (4 + s.length ≤ b.getCapacity → (RoundTrips (writeString32 host fresh s) (readStringF32 host) s b ↔
      s.length < 2 ^ 32 ∧ ¬(s = [] ∧ b.position + 4 = b.capacity))) ∧
    (8 + s.length ≤ b.getCapacity → (RoundTrips (writeString64 host fresh s) (readStringF64 host) s b ↔
      s.length < 2 ^ 64 ∧ ¬(s = [] ∧ b.position + 8 = b.capacity))) :=
  ⟨fun hroom => stringF_roundTrips_iff h (by decide) hroom, fun hroom => stringF_roundTrips_iff h (by decide) hroom,
    fun hroom => stringF_roundTrips_iff h (by decide) hroom⟩

/-- A string that ends with the capacity, and the empty string. -/
theorem fixedStrings_iff_test :
    RoundTrips (writeString16 .little (fun _ _ => 0) [104, 105]) (readStringF16 .little) [104, 105]
      (ByteArray.new (fun _ => 0) 4) ∧
    RoundTrips (writeString32 .little (fun _ _ => 0) []) (readStringF32 .little) [] (ByteArray.new (fun _ => 0) 8) :=
  ⟨((fixedStrings_iff (inv_new (by decide) _) _ _ _).1 (by decide)).mpr (by decide),
    ((fixedStrings_iff (inv_new (by decide) _) _ _ _).2.1 (by decide)).mpr (by decide)⟩

/-- The empty string, whose prefix fills the only node. -/
theorem emptyString_lost : ¬∀ (B : Nat) (b : ByteArray) (host : Endian) (fresh : Nat → Nat → UInt8) (s : List UInt8),
    1 ≤ B → Reachable B b → 2 + s.length ≤ b.getCapacity →
      RoundTrips (writeString16 host fresh s) (readStringF16 host) s b := by
  intro h
  have hreached : Reachable 2 (ByteArray.new (fun _ => 0) 2) := ⟨_, .start⟩
  have hlost := (stringF_roundTrips_iff (hreached.inv (by decide)) (by decide) (by decide)).mp
    (h 2 _ .little (fun _ _ => 0) [] (by decide) hreached (by decide))
  exact hlost.2 ⟨rfl, rfl⟩

/-! ### A varint for a prefix -/

/-- The last group has no mark and is not zero. -/
theorem fill_last (hv : 0 < v) (h : fill room v = some l) : ∃ front x, l = front ++ [x] ∧ x ≠ 0 := by
  induction room generalizing v l with
  | zero => cases h
  | succ room ih =>
    rcases Nat.lt_or_ge v 128 with hsmall | hlarge
    · obtain rfl := Option.some.inj ((fill_small hsmall).symm.trans h)
      have hnat : (UInt8.ofNat v).toNat = v := by
        rw [UInt8.toNat_ofNat']
        exact Nat.mod_eq_of_lt (by omega)
      refine ⟨[], UInt8.ofNat v, rfl, fun hzero => ?_⟩
      rw [hzero] at hnat
      exact hv.ne hnat
    · obtain ⟨l', hl', rfl⟩ := Option.map_eq_some_iff.mp ((fill_large hlarge).symm.trans h)
      obtain ⟨front, x, rfl, hx⟩ := ih (Nat.div_pos hlarge (by decide)) hl'
      exact ⟨_ :: front, x, rfl, hx⟩

/-- Every group before the last is marked. -/
theorem fill_first (hv : 128 ≤ v) (h : fill room v = some l) : ∃ x rest, l = x :: rest ∧ x ≠ 0 := by
  rcases room with _ | room
  · cases h
  · obtain ⟨l', -, rfl⟩ := Option.map_eq_some_iff.mp ((fill_large hv).symm.trans h)
    refine ⟨_, l', rfl, fun hzero => ?_⟩
    have hmark : (UInt8.ofNat ((v &&& 0x7F) ||| 0x80)).toNat = v % 128 + 128 := marked_toNat
    rw [hzero] at hmark
    exact (Nat.succ_ne_zero _ hmark.symm).elim

/-- The groups of a number, taken for its bytes, are another number. -/
theorem ofImage_fill_ne {order : Endian} (h : fill room v = some l) (hl : l.length = 8) : ofImage order l ≠ v := by
  have hcount := groupCount_eq_fill h
  have hlarge : 128 ≤ v := by
    by_contra hsmall
    rw [groupCount_small (Nat.not_le.mp hsmall), hl] at hcount
    cases hcount
  have hupper : v < 256 ^ 7 := by
    have hsize : v.size ≤ 56 := by
      unfold groupCount at hcount
      omega
    exact Nat.size_le.mp hsize
  have hlower : 256 ^ 7 ≤ ofImage order l := by
    cases order with
    | little =>
      obtain ⟨front, x, rfl, hx⟩ := fill_last (by omega) h
      have hfront : front.length = 7 := Nat.succ.inj (List.length_append.symm.trans hl)
      rw [← hfront]
      exact pow_le_ofBytes hx
    | big =>
      obtain ⟨x, rest, rfl, hx⟩ := fill_first hlarge h
      have hrest : rest.reverse.length = 7 := by
        rw [List.length_reverse]
        exact Nat.succ.inj hl
      rw [← hrest, ofImage, List.reverse_cons]
      exact pow_le_ofBytes hx
  exact (hupper.trans_le hlower).ne'

/-- The groups of the length and the string. -/
theorem Inv.wroteVint (h : Inv b) {u : Unit} (hwrite : writeStringVint fresh s b = .ok u b') :
    ∃ l, fill 10 (UInt64.ofNat s.length).toNat = some l ∧ Wrote b (l ++ s) b' := by
  obtain ⟨u', c, hprefix, hstring⟩ := bind_inv (f := writeUint64 fresh _) hwrite
  obtain ⟨l, hfill, -⟩ := fill_eq (show 1 ≤ 10 by decide) ((UInt64.ofNat s.length).toNat_lt.trans (by decide))
  have hput : ByteArray.put fresh l b = .ok u' c := (congrFun (writeGroups_eq hfill) b).symm.trans hprefix
  have hwrote := h.wrote hput
  exact ⟨l, hfill, hwrote.trans (hwrote.inv.wrote hstring)⟩

/-- Eight bytes are taken for the length of the string behind them. -/
theorem Inv.readVint (h : Inv b) (hread : readStringVint host b = .ok s b') :
    s.length = (UInt64.ofNat (ofImage b.endian ((b.nodes.flatten.drop b.position).take 8))).toNat ∧
      b'.position = b.position + 8 + s.length := by
  obtain ⟨len, c, hlen, hrest⟩ := bind_inv (f := readFuint64 host) hread
  obtain ⟨value, c', hvalue, hcast⟩ := bind_inv (f := readF host 8) hlen
  cases hcast
  obtain ⟨data, htake, rfl⟩ := readF_inv h hvalue
  obtain ⟨hinv, rfl, -, hpassed⟩ := h.took htake
  obtain ⟨-, -, hlength, hpassed'⟩ := hinv.took hrest
  refine ⟨hlength, ?_⟩
  rw [hpassed'.position, hpassed.position, hlength]

/-- To end where the writer ended, the reader needs a length of eight groups; their bytes, taken for a number, are another
    length. -/
theorem vintString_lost (h : Inv b) (host : Endian) (fresh : Nat → Nat → UInt8) (s : List UInt8) :
    ¬RoundTrips (writeStringVint fresh s) (readStringVint host) s b := by
  rintro ⟨b₁, b₂, b₃, hwrite, hback, hread, hend⟩
  obtain ⟨l, hfill, hwrote⟩ := h.wroteVint hwrite
  obtain ⟨c, hback', hreads, -, -, hposition⟩ := hwrote.back
  cases hback.symm.trans hback'
  obtain ⟨hlength, hposition'⟩ := hreads.inv.readVint hread
  have hl : l.length = 8 := by
    rw [hposition', hposition, hwrote.position, List.length_append] at hend
    omega
  have hgroups : (b₂.nodes.flatten.drop b₂.position).take 8 = l := by
    have hbytes := congrArg (List.take 8) hreads.bytes
    rwa [List.take_take, List.length_append, hl, Nat.min_eq_left (Nat.le_add_right ..), ← hl, List.take_left' rfl,
      hl] at hbytes
  rw [hgroups] at hlength
  have hvalue : (UInt64.ofNat s.length).toNat = ofImage b₂.endian l := by
    have hlt : ofImage b₂.endian l < 2 ^ 64 := ofImage_lt.trans_eq (by rw [hl]; rfl)
    rw [hlength, UInt64.ofNat_toNat]
    exact UInt64.toNat_ofNat_of_lt hlt
  exact ofImage_fill_ne hfill hl hvalue.symm

/-- A string of one byte. -/
theorem vintString_lost_one : ¬RoundTrips (writeStringVint (fun _ _ => 0) [65]) (readStringVint .little) [65]
    (ByteArray.new (fun _ => 0) 16) :=
  vintString_lost (inv_new (by decide) _) _ _ _

/-- The eight bytes that are taken for the length of that string are not there. -/
theorem vintString_unread : ¬∀ (B : Nat) (b : ByteArray) (host : Endian) (fresh : Nat → Nat → UInt8) (s : List UInt8),
    1 ≤ B → Reachable B b → groupCount s.length + s.length ≤ b.getCapacity →
      RoundTrips (writeStringVint fresh s) (readStringVint host) s b := by
  intro h
  have hreached : Reachable 16 (ByteArray.new (fun _ => 0) 16) := ⟨_, .start⟩
  obtain ⟨b₁, b₂, b₃, hwrite, hback, hread, -⟩ :=
    h 16 _ .little (fun _ _ => 0) [65] (by decide) hreached (by decide +kernel)
  cases hwrite
  cases hback
  cases hread

end ByteArray
end MyHttp
