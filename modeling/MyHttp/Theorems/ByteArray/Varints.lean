import MyHttp.Theorems.ByteArray.Access

/-! Integers in groups of seven bits. The writer stops at the first group that is the last one, the reader at a byte
    without the mark or at the width of its result; the invariant between them is that the groups read so far are the
    low bits of the value. -/

namespace MyHttp
namespace ByteArray

open Lib.Chunks Lib.Octets

variable {α : Type} {b b' c : ByteArray} {fresh : Nat → Nat → UInt8} {l r : List UInt8} {n i w v room result : Nat}

/-! ### The writer -/

theorem and_mask : v &&& 0x7F = v % 128 := Nat.and_two_pow_sub_one_eq_mod v 7

/-- A group with the mark that another follows. -/
theorem marked_toNat : (UInt8.ofNat ((v &&& 0x7F) ||| 0x80)).toNat = v % 128 + 128 := by
  have hlt : v % 128 < 2 ^ 7 := Nat.mod_lt _ (by decide)
  have hmark : v % 128 ||| 1 <<< 7 = v % 128 + 1 * 2 ^ 7 := or_shiftLeft hlt
  have hvalue : (v &&& 0x7F) ||| 0x80 = v % 128 + 128 := by
    rw [and_mask]
    exact hmark
  rw [UInt8.toNat_ofNat', hvalue]
  exact Nat.mod_eq_of_lt (by omega)

theorem fill_small (h : v < 128) : fill (room + 1) v = some [UInt8.ofNat v] := if_neg (Nat.not_le.mpr h)

theorem fill_large (h : 128 ≤ v) :
    fill (room + 1) v = (fill room (v / 128)).map (UInt8.ofNat ((v &&& 0x7F) ||| 0x80) :: ·) := by
  have hshift : v >>> 7 = v / 128 := Nat.shiftRight_eq_div_pow v 7
  rw [fill, if_pos h, hshift]

/-- The buffer is long enough for a value of seven bits a byte. -/
theorem fill_eq (hroom : 1 ≤ room) (h : v < 2 ^ (7 * room)) : ∃ l, fill room v = some l ∧ l.length = groupCount v := by
  induction room generalizing v with
  | zero => exact absurd hroom (by decide)
  | succ room ih =>
    rcases Nat.lt_or_ge v 128 with hsmall | hlarge
    · exact ⟨_, fill_small hsmall, (groupCount_small hsmall).symm⟩
    · have hbound : v / 128 < 2 ^ (7 * room) := by
        rw [Nat.mul_succ, Nat.pow_add] at h
        exact Nat.div_lt_of_lt_mul (by rwa [Nat.mul_comm])
      have hmore : 1 ≤ room := by
        rcases room with _ | room
        · exact absurd (Nat.div_pos hlarge (by decide)) (by omega)
        · exact Nat.succ_pos _
      obtain ⟨l, hfill, hlength⟩ := ih hmore hbound
      refine ⟨UInt8.ofNat ((v &&& 0x7F) ||| 0x80) :: l, ?_, ?_⟩
      · rw [fill_large hlarge, hfill]
        rfl
      · rw [List.length_cons, hlength, groupCount_large hlarge]

theorem groupCount_eq_fill (h : fill room v = some l) : l.length = groupCount v := by
  induction room generalizing v l with
  | zero => cases h
  | succ room ih =>
    rcases Nat.lt_or_ge v 128 with hsmall | hlarge
    · obtain rfl := Option.some.inj ((fill_small hsmall).symm.trans h)
      exact (groupCount_small hsmall).symm
    · obtain ⟨l', hl', rfl⟩ := Option.map_eq_some_iff.mp ((fill_large hlarge).symm.trans h)
      rw [List.length_cons, ih hl', groupCount_large hlarge]

theorem fill_ne_nil (h : fill room v = some l) : l ≠ [] := fun hnil => by
  have hpos : 1 ≤ groupCount v := groupCount_pos
  rw [← groupCount_eq_fill h, hnil] at hpos
  cases hpos

theorem writeGroups_eq (h : fill room v = some l) : writeGroups fresh room v = put fresh l := by
  unfold writeGroups
  rw [h]

/-! ### The reader -/

/-- The groups of what is left of `v` above bit `i` complete the low bits of `v`. -/
theorem readGroups_fill (hn : 1 ≤ n) (hv : v < 2 ^ w) (hfit : v < 2 ^ (i + 7 * n)) (hfill : fill room (v / 2 ^ i) = some l)
    (h : Reads b (l ++ r)) :
    ∃ b', readGroups w (List.range' i n 7) (v % 2 ^ i) b = .ok v b' ∧ Reads b' r ∧ Passed b l.length b' := by
  induction n generalizing i l b room with
  | zero => exact absurd hn (by decide)
  | succ n ih =>
    rcases room with _ | room
    · cases hfill
    have hlow : v % 2 ^ i < 2 ^ i := Nat.mod_lt _ (Nat.two_pow_pos i)
    have hgroup : ∀ m ≤ v / 2 ^ i, m * 2 ^ i ≤ v := fun m hm =>
      (Nat.mul_le_mul_right _ hm).trans (Nat.div_mul_le_self ..)
    rcases Nat.lt_or_ge (v / 2 ^ i) 128 with hsmall | hlarge
    · obtain rfl := Option.some.inj ((fill_small hsmall).symm.trans hfill)
      obtain ⟨b', hbyte, hreads, hpassed⟩ := readFuint8_cons h
      have hnat : (UInt8.ofNat (v / 2 ^ i)).toNat = v / 2 ^ i := by
        rw [UInt8.toNat_ofNat']
        exact Nat.mod_eq_of_lt (by omega)
      have hlast : UInt8.ofNat (v / 2 ^ i) < 0x80 := by
        rw [UInt8.lt_iff_toNat_lt, hnat]
        exact hsmall
      have hvalue : v % 2 ^ i ||| (v / 2 ^ i) <<< i % 2 ^ w = v := by
        have hle := hgroup _ (Nat.le_refl _)
        rw [Nat.shiftLeft_eq, Nat.mod_eq_of_lt (hle.trans_lt hv), ← Nat.shiftLeft_eq, or_shiftLeft hlow, Nat.mul_comm]
        exact Nat.mod_add_div ..
      refine ⟨b', ?_, hreads, hpassed⟩
      rw [List.range'_succ, readGroups, bind_ok hbyte, if_pos hlast, hnat, hvalue]
      rfl
    · obtain ⟨l', hl', rfl⟩ := Option.map_eq_some_iff.mp ((fill_large hlarge).symm.trans hfill)
      obtain ⟨b₁, hbyte, hreads, hpassed⟩ := readFuint8_cons h
      have hmark : ¬UInt8.ofNat ((v / 2 ^ i &&& 0x7F) ||| 0x80) < 0x80 := by
        rw [UInt8.lt_iff_toNat_lt, marked_toNat]
        exact Nat.not_lt.mpr (Nat.le_add_left ..)
      have hvalue : v % 2 ^ i |||
          ((UInt8.ofNat ((v / 2 ^ i &&& 0x7F) ||| 0x80)).toNat &&& 0x7F) <<< i % 2 ^ w = v % 2 ^ (i + 7) := by
        have hle := hgroup _ (Nat.mod_le (v / 2 ^ i) 128)
        rw [and_mask, marked_toNat, Nat.add_mod_right, Nat.mod_mod, Nat.shiftLeft_eq, Nat.mod_eq_of_lt (hle.trans_lt hv),
          ← Nat.shiftLeft_eq, or_shiftLeft hlow, mod_next]
      have hnext : v / 2 ^ i / 128 = v / 2 ^ (i + 7) := by
        rw [Nat.pow_add, Nat.div_div_eq_div_mul]
      have hmore : 1 ≤ n := by
        rcases n with _ | n
        · rw [Nat.pow_add] at hfit
          exact absurd (Nat.div_lt_of_lt_mul hfit) (Nat.not_lt.mpr hlarge)
        · exact Nat.succ_pos _
      rw [hnext] at hl'
      have hfit : v < 2 ^ (i + 7 + 7 * n) := by rwa [Nat.add_assoc, Nat.add_comm 7, ← Nat.mul_succ]
      obtain ⟨b', hread, hreads', hpassed'⟩ := ih hmore hfit hl' hreads
      refine ⟨b', ?_, hreads', ?_⟩
      · rw [List.range'_succ, readGroups, bind_ok hbyte, if_neg hmark, hvalue]
        exact hread
      · rw [List.length_cons, Nat.add_comm]
        exact hpassed.trans hpassed'

/-- A reader that passes over `n` bytes at most, and returns or finds the readable bytes used up. -/
def Bounded (read : Access α) (n : Nat) (b : ByteArray) : Prop :=
  ∃ k ≤ n, ∃ b', Passed b k b' ∧ ((∃ v, read b = .ok v b') ∨ read b = .error (.outOfRange "not enough len") b')

/-- The next byte, or none left. -/
theorem Inv.readFuint8 (h : Inv b) : (∃ x b', readFuint8 b = .ok x b' ∧ Passed b 1 b' ∧ Inv b') ∨
    readFuint8 b = .error (.outOfRange "not enough len") b := by
  rcases Nat.eq_zero_or_pos b.getReadSize with hnone | hsome
  · right
    have htake : ByteArray.take 1 b = .error (.outOfRange "not enough len") b := by
      unfold ByteArray.take ByteArray.read
      rw [if_pos (by omega)]
    exact bind_error htake
  · left
    obtain ⟨b', hread, hinv, -⟩ := h.read Nat.one_pos hsome
    exact ⟨_, b', bind_ok (take_of_ok hread), passed_of_read hread, hinv⟩

theorem Inv.readGroups (h : Inv b) (is : List Nat) (result : Nat) :
    Bounded (ByteArray.readGroups w is result) is.length b := by
  induction is generalizing b result with
  | nil => exact ⟨0, Nat.le_refl 0, b, .refl, .inl ⟨result, rfl⟩⟩
  | cons i is ih =>
    rcases h.readFuint8 with ⟨x, b₁, hbyte, hpassed, hinv⟩ | herror
    · by_cases hlast : x < 0x80
      · refine ⟨1, Nat.succ_pos _, b₁, hpassed, .inl ⟨result ||| (x.toNat <<< i) % 2 ^ w, ?_⟩⟩
        rw [ByteArray.readGroups, bind_ok hbyte, if_pos hlast]
        rfl
      · obtain ⟨k, hk, b', hpassed', hread⟩ := ih hinv (result ||| ((x.toNat &&& 0x7F) <<< i) % 2 ^ w)
        have heq : ByteArray.readGroups w (i :: is) result b =
            ByteArray.readGroups w is (result ||| ((x.toNat &&& 0x7F) <<< i) % 2 ^ w) b₁ := by
          rw [ByteArray.readGroups, bind_ok hbyte, if_neg hlast]
        refine ⟨1 + k, ?_, b', hpassed.trans hpassed', ?_⟩
        · rw [List.length_cons]
          omega
        · rw [heq]
          exact hread
    · refine ⟨0, Nat.zero_le _, b, .refl, .inr ?_⟩
      rw [ByteArray.readGroups]
      exact bind_error herror

theorem Bounded.map {β : Type} {read : Access α} {f : α → β} (h : Bounded read n b) :
    Bounded (read >>= fun v => pure (f v)) n b := by
  obtain ⟨k, hk, b', hpassed, ⟨v, hread⟩ | hread⟩ := h
  · exact ⟨k, hk, b', hpassed, .inl ⟨f v, bind_ok hread⟩⟩
  · exact ⟨k, hk, b', hpassed, .inr (bind_error hread)⟩

/-! ### Unsigned integers -/

/-- `write` puts `n` bytes at the cursor, and `read` returns the value wherever these bytes stand and whatever follows
    them, and passes over them. -/
def Encodes (write : Access Unit) (read : Access α) (value : α) (n : Nat) (b : ByteArray) : Prop :=
  ∃ l, l.length = n ∧ (∃ b', write b = .ok () b' ∧ Wrote b l b') ∧
    ∀ c r, Reads c (l ++ r) → ∃ c', read c = .ok value c' ∧ Passed c n c'

theorem Encodes.roundTrips {write : Access Unit} {read : Access α} {value : α} (h : Encodes write read value n b) :
    RoundTrips write read value b := by
  obtain ⟨l, hlength, ⟨b₁, hwrite, hwrote⟩, hread⟩ := h
  obtain ⟨b₂, hback, hreads, -, -, hposition⟩ := hwrote.back
  obtain ⟨b₃, hread, hpassed⟩ := hread b₂ [] (by rwa [List.append_nil])
  refine ⟨b₁, b₂, b₃, hwrite, hback, hread, ?_⟩
  rw [hpassed.position, hposition, hwrote.position, hlength]

/-- The one with `room` bytes for a value of `w` bits. -/
theorem encodes_iff {f : Nat → α} (h : Inv b) (fresh : Nat → Nat → UInt8) (hroom : 1 ≤ room) (hwidth : w ≤ 7 * room) (hrounds : (w + 6) / 7 = room)
    (hv : v < 2 ^ w) : Encodes (writeGroups fresh room v) (readGroups w (shifts w) 0 >>= fun v => pure (f v)) (f v)
      (groupCount v) b ↔ CapacityOk b (groupCount v) := by
  have hbits : v < 2 ^ (7 * room) := hv.trans_le (Nat.pow_le_pow_right (by decide) hwidth)
  obtain ⟨l, hfill, hlength⟩ := fill_eq hroom hbits
  have hput := h.put_iff fresh (fill_ne_nil hfill)
  rw [← writeGroups_eq hfill, hlength] at hput
  rw [← hput]
  constructor
  · rintro ⟨l', hl', ⟨b', hwrite, hwrote⟩, -⟩
    rw [writeGroups_eq hfill] at hwrite ⊢
    exact ⟨b', hwrite, h.wrote hwrite⟩
  · intro hwrite
    refine ⟨l, hlength, hwrite, fun c r hreads => ?_⟩
    have hquotient : fill room (v / 2 ^ 0) = some l := by rwa [Nat.pow_zero, Nat.div_one]
    have hfit : v < 2 ^ (0 + 7 * room) := by rwa [Nat.zero_add]
    obtain ⟨c', hread, -, hpassed⟩ := readGroups_fill hroom hv hfit hquotient hreads
    rw [Nat.pow_zero, Nat.mod_one] at hread
    rw [hlength] at hpassed
    refine ⟨c', ?_, hpassed⟩
    unfold shifts
    rw [hrounds, bind_ok hread]
    rfl

theorem encodes32_iff (h : Inv b) (fresh : Nat → Nat → UInt8) (value : UInt32) :
    Encodes (writeUint32 fresh value) readUint32 value (groupCount value.toNat) b ↔
      CapacityOk b (groupCount value.toNat) := by
  have hiff := encodes_iff (f := UInt32.ofNat) h fresh (show 1 ≤ 5 by decide) (by decide) (by decide)
    value.toNat_lt
  rwa [UInt32.ofNat_toNat] at hiff

theorem encodes64_iff (h : Inv b) (fresh : Nat → Nat → UInt8) (value : UInt64) :
    Encodes (writeUint64 fresh value) readUint64 value (groupCount value.toNat) b ↔
      CapacityOk b (groupCount value.toNat) := by
  have hiff := encodes_iff (f := UInt64.ofNat) h fresh (show 1 ≤ 10 by decide) (by decide) (by decide)
    value.toNat_lt
  rwa [UInt64.ofNat_toNat] at hiff

/-- Every value fits into the local buffer, and is written and read back exactly where room for its groups can be made;
    on any bytes the readers pass over five and ten at most, and return or find the bytes used up. -/
theorem varints_iff (h : Inv b) (fresh : Nat → Nat → UInt8) :
    (∀ v : UInt32, (fill 5 v.toNat).isSome ∧
      (Encodes (writeUint32 fresh v) readUint32 v (groupCount v.toNat) b ∧
        RoundTrips (writeUint32 fresh v) readUint32 v b ↔ CapacityOk b (groupCount v.toNat))) ∧
    (∀ v : UInt64, (fill 10 v.toNat).isSome ∧
      (Encodes (writeUint64 fresh v) readUint64 v (groupCount v.toNat) b ∧
        RoundTrips (writeUint64 fresh v) readUint64 v b ↔ CapacityOk b (groupCount v.toNat))) ∧
    ∀ c, Inv c → Bounded readUint32 5 c ∧ Bounded readUint64 10 c := by
  refine ⟨fun v => ⟨?_, ?_⟩, fun v => ⟨?_, ?_⟩, fun c hc => ⟨?_, ?_⟩⟩
  · obtain ⟨l, hfill, -⟩ := fill_eq (show 1 ≤ 5 by decide) (v.toNat_lt.trans (by decide))
    rw [hfill]
    rfl
  · rw [← encodes32_iff h fresh]
    exact ⟨And.left, fun hencodes => ⟨hencodes, hencodes.roundTrips⟩⟩
  · obtain ⟨l, hfill, -⟩ := fill_eq (show 1 ≤ 10 by decide) (v.toNat_lt.trans (by decide))
    rw [hfill]
    rfl
  · rw [← encodes64_iff h fresh]
    exact ⟨And.left, fun hencodes => ⟨hencodes, hencodes.roundTrips⟩⟩
  · exact Bounded.map (hc.readGroups (shifts 32) 0)
  · exact Bounded.map (hc.readGroups (shifts 64) 0)

/-- Two bytes are left, for values of two groups. -/
theorem varints_iff_halfFull : RoundTrips (writeUint32 (fun _ _ => 0) 300) readUint32 300 halfFull ∧
    RoundTrips (writeUint64 (fun _ _ => 0) 16383) readUint64 16383 halfFull := by
  have hinv : Inv halfFull := halfFull_reachable.inv (by decide)
  obtain ⟨h32, h64, -⟩ := varints_iff hinv fun _ _ => 0
  exact ⟨((h32 300).2.mpr (by decide +kernel)).2, ((h64 16383).2.mpr (by decide +kernel)).2⟩

/-- A value of three groups, where two bytes are left of a node of four. -/
theorem varint_lost : ¬∀ (b : ByteArray) (fresh : Nat → Nat → UInt8) (v : UInt32), Reachable 4 b →
    Encodes (writeUint32 fresh v) readUint32 v (groupCount v.toNat) b := by
  intro h
  have hok := (encodes32_iff (halfFull_reachable.inv (by decide)) _ 20000).mp
    (h halfFull (fun _ _ => 0) 20000 halfFull_reachable)
  revert hok
  decide +kernel

/-! ### Signed integers -/

section Zigzag

theorem toNat_toUInt32 (u : Int32) : (u.toUInt32.toNat : Int) = u.toInt % 2 ^ 32 := by
  have hmod : (u.toBitVec.toNat : Int).bmod (2 ^ 32) % (2 ^ 32 : Nat) = u.toBitVec.toNat % (2 ^ 32 : Nat) := Int.bmod_emod
  have hlt := u.toBitVec.isLt
  rw [← Int32.toNat_toBitVec, ← Int32.toInt_toBitVec, BitVec.toInt_eq_toNat_bmod]
  omega

theorem toNat_toUInt64 (u : Int64) : (u.toUInt64.toNat : Int) = u.toInt % 2 ^ 64 := by
  have hmod : (u.toBitVec.toNat : Int).bmod (2 ^ 64) % (2 ^ 64 : Nat) = u.toBitVec.toNat % (2 ^ 64 : Nat) := Int.bmod_emod
  have hlt := u.toBitVec.isLt
  rw [← Int64.toNat_toBitVec, ← Int64.toInt_toBitVec, BitVec.toInt_eq_toNat_bmod]
  omega

theorem double_pred (u : UInt32) : (u * 2 - 1).toNat = (2 * u.toNat + (2 ^ 32 - 1)) % 2 ^ 32 := by
  have htwo : (2 : UInt32).toNat = 2 := rfl
  have hone : (1 : UInt32).toNat = 1 := rfl
  rw [UInt32.toNat_sub, UInt32.toNat_mul, hone, htwo]
  omega

theorem encode32_toNat (v : Int32) : (EncodeZigzag32 v).toNat = zigzag v.toInt := by
  have hlt := v.toInt_lt
  have hge := v.le_toInt
  have hneg : v < 0 ↔ v.toInt < 0 := Int32.lt_iff_toInt_lt
  unfold EncodeZigzag32 zigzag
  by_cases h : v.toInt < 0
  · have hmod : (-v.toInt).bmod (2 ^ 32) % (2 ^ 32 : Nat) = -v.toInt % (2 ^ 32 : Nat) := Int.bmod_emod
    have hcast := toNat_toUInt32 (-v)
    rw [Int32.toInt_neg] at hcast
    rw [if_pos (hneg.mpr h), if_pos h, double_pred]
    omega
  · have hmod : (v.toInt * 2).bmod (2 ^ 32) % (2 ^ 32 : Nat) = v.toInt * 2 % (2 ^ 32 : Nat) := Int.bmod_emod
    have hcast := toNat_toUInt32 (v * 2)
    rw [Int32.toInt_mul] at hcast
    have hcast : ((v * 2).toUInt32.toNat : Int) = (v.toInt * 2).bmod (2 ^ 32) % 2 ^ 32 := hcast
    rw [if_neg (mt hneg.mp h), if_neg h]
    omega

/-- The negative numbers are numbered in 32 bits. -/
theorem encode64_toNat (v : Int64) :
    (EncodeZigzag64 v).toNat = if v.toInt < 0 then zigzag v.toInt % 2 ^ 32 else zigzag v.toInt := by
  have hlt := v.toInt_lt
  have hge := v.le_toInt
  have hneg : v < 0 ↔ v.toInt < 0 := Int64.lt_iff_toInt_lt
  unfold EncodeZigzag64 zigzag
  by_cases h : v.toInt < 0
  · have hmod : (-v.toInt).bmod (2 ^ 64) % (2 ^ 64 : Nat) = -v.toInt % (2 ^ 64 : Nat) := Int.bmod_emod
    have hcast := toNat_toUInt64 (-v)
    have hlow : (-v).toUInt64.toUInt32.toNat = (-v).toUInt64.toNat % 2 ^ 32 := UInt64.toNat_toUInt32 _
    rw [Int64.toInt_neg] at hcast
    rw [if_pos (hneg.mpr h), if_pos h, if_pos h, UInt32.toNat_toUInt64, double_pred, hlow]
    omega
  · have hmod : (v.toInt * 2).bmod (2 ^ 64) % (2 ^ 64 : Nat) = v.toInt * 2 % (2 ^ 64 : Nat) := Int.bmod_emod
    have hcast := toNat_toUInt64 (v * 2)
    rw [Int64.toInt_mul] at hcast
    have hcast : ((v * 2).toUInt64.toNat : Int) = (v.toInt * 2).bmod (2 ^ 64) % 2 ^ 64 := hcast
    rw [if_neg (mt hneg.mp h), if_neg h, if_neg h]
    omega

theorem decode32_toInt (u : UInt32) : (DecodeZigzag32 u).toInt = unzigzag u.toNat := by
  have hlt := u.toNat_lt
  have hmask := xor_mask u.toBitVec (by decide)
  have hnat : u.toBitVec.toNat = u.toNat := rfl
  show (u.toBitVec >>> 1 ^^^ -(u.toBitVec &&& 1#32)).toInt = _
  rw [BitVec.toInt_eq_toNat_bmod, hmask, hnat, Int.bmod_eq_iff (by decide)]
  unfold unzigzag
  split_ifs <;> omega

/-- The result is cut to 32 bits. -/
theorem decode64_toInt (u : UInt64) : (DecodeZigzag64 u).toInt = (unzigzag u.toNat).bmod (2 ^ 32) := by
  have hlt := u.toNat_lt
  have hmask := xor_mask u.toBitVec (by decide)
  have hnat : u.toBitVec.toNat = u.toNat := rfl
  show ((u.toBitVec >>> 1 ^^^ -(u.toBitVec &&& 1#64)).setWidth 32).toInt = _
  rw [BitVec.toInt_setWidth, hmask, hnat]
  unfold unzigzag
  split_ifs
  · rfl
  · refine Int.bmod_eq_bmod_iff_bmod_sub_eq_zero.mpr (Int.dvd_iff_bmod_eq_zero.mp ?_)
    omega

theorem decode_encode32 (v : Int32) : DecodeZigzag32 (EncodeZigzag32 v) = v := by
  refine Int32.toInt_inj.mp ?_
  rw [decode32_toInt, encode32_toNat, unzigzag_zigzag]

theorem encode_decode32 (u : UInt32) : EncodeZigzag32 (DecodeZigzag32 u) = u := by
  refine UInt32.toNat_inj.mp ?_
  rw [encode32_toNat, decode32_toInt, zigzag_unzigzag]

/-- Only the values of 32 bits come back. -/
theorem decode_encode64_iff (v : Int64) :
    (DecodeZigzag64 (EncodeZigzag64 v)).toInt64 = v ↔ -2 ^ 31 ≤ v.toInt ∧ v.toInt < 2 ^ 31 := by
  rw [← Int64.toInt_inj, Int32.toInt_toInt64, decode64_toInt, encode64_toNat]
  have hbounds := Int.bmod_eq_iff (a := unzigzag (if v.toInt < 0 then zigzag v.toInt % 2 ^ 32 else zigzag v.toInt))
    (b := 2 ^ 32) (c := v.toInt) (by decide)
  rw [hbounds]
  unfold unzigzag zigzag
  split_ifs <;> omega

theorem encode_decode64_iff (u : UInt64) : EncodeZigzag64 (DecodeZigzag64 u).toInt64 = u ↔ u.toNat < 2 ^ 32 := by
  have hlt := (DecodeZigzag64 u).toInt_lt
  have hge := (DecodeZigzag64 u).le_toInt
  have hencoded : (EncodeZigzag64 (DecodeZigzag64 u).toInt64).toNat = zigzag (DecodeZigzag64 u).toInt := by
    have hsmall : zigzag (DecodeZigzag64 u).toInt < 2 ^ 32 := by
      unfold zigzag
      split_ifs <;> omega
    rw [encode64_toNat, Int32.toInt_toInt64, Nat.mod_eq_of_lt hsmall, ite_self]
  rw [← UInt64.toNat_inj, hencoded]
  constructor
  · intro heq
    rw [← heq]
    unfold zigzag
    split_ifs <;> omega
  · intro hsmall
    have hdecoded : (DecodeZigzag64 u).toInt = unzigzag u.toNat := by
      rw [decode64_toInt, Int.bmod_eq_iff (by decide)]
      unfold unzigzag
      split_ifs <;> omega
    rw [hdecoded, zigzag_unzigzag]

end Zigzag

/-- A value that is computed from what is read. -/
theorem roundTrips_map {β : Type} {write : Access Unit} {read : Access α} {f : α → β} {u : α} {value : β} {ok : Prop}
    (hencodes : Encodes write read u n b ↔ ok) (hwrite : ∀ b', write b = .ok () b' → ok) :
    RoundTrips write (read >>= fun x => pure (f x)) value b ↔ ok ∧ f u = value := by
  constructor
  · rintro ⟨b₁, b₂, b₃, hwritten, hback, hread, -⟩
    have hok := hwrite b₁ hwritten
    obtain ⟨c₃, hread', -⟩ := (roundTrips_iff_read hwritten hback).mp (hencodes.mpr hok).roundTrips
    rw [bind_ok hread'] at hread
    cases hread
    exact ⟨hok, rfl⟩
  · rintro ⟨hok, rfl⟩
    obtain ⟨b₁, b₂, b₃, hwritten, hback, hread, hposition⟩ := (hencodes.mpr hok).roundTrips
    exact ⟨b₁, b₂, b₃, hwritten, hback, bind_ok hread, hposition⟩

theorem writeGroups_ok (h : Inv b) (hroom : 1 ≤ room) (hv : v < 2 ^ (7 * room)) (hwrite : writeGroups fresh room v b = .ok () b') :
    CapacityOk b (groupCount v) := by
  obtain ⟨l, hfill, hlength⟩ := fill_eq hroom hv
  rw [writeGroups_eq hfill] at hwrite
  rw [← hlength]
  exact (h.put_iff fresh (fill_ne_nil hfill)).mp ⟨b', hwrite, h.wrote hwrite⟩

theorem int32_roundTrips_iff (h : Inv b) (v : Int32) :
    RoundTrips (writeInt32 fresh v) readInt32 v b ↔ CapacityOk b (groupCount (EncodeZigzag32 v).toNat) := by
  have hmap : RoundTrips (writeInt32 fresh v) readInt32 v b ↔ _ ∧ DecodeZigzag32 (EncodeZigzag32 v) = v :=
    roundTrips_map (encodes32_iff h fresh (EncodeZigzag32 v)) fun b' hwrite =>
      writeGroups_ok h (by decide) ((EncodeZigzag32 v).toNat_lt.trans (by decide)) hwrite
  rw [hmap, and_iff_left (decode_encode32 v)]

theorem int64_roundTrips_iff (h : Inv b) (v : Int64) : RoundTrips (writeInt64 fresh v) readInt64 v b ↔
    CapacityOk b (groupCount (EncodeZigzag64 v).toNat) ∧ -2 ^ 31 ≤ v.toInt ∧ v.toInt < 2 ^ 31 := by
  have hmap : RoundTrips (writeInt64 fresh v) readInt64 v b ↔ _ ∧ (DecodeZigzag64 (EncodeZigzag64 v)).toInt64 = v :=
    roundTrips_map (encodes64_iff h fresh (EncodeZigzag64 v)) fun b' hwrite =>
      writeGroups_ok h (by decide) ((EncodeZigzag64 v).toNat_lt.trans (by decide)) hwrite
  rw [hmap, decode_encode64_iff]

/-- The numbering of 32 bits is a bijection, and signed values of 32 bits come back wherever they can be written; of those
    of 64 bits only the ones that fit into 32 do. -/
theorem zigzags_iff (h : Inv b) (fresh : Nat → Nat → UInt8) :
    (∀ v, DecodeZigzag32 (EncodeZigzag32 v) = v) ∧ (∀ u, EncodeZigzag32 (DecodeZigzag32 u) = u) ∧
    (∀ v, RoundTrips (writeInt32 fresh v) readInt32 v b ↔ CapacityOk b (groupCount (EncodeZigzag32 v).toNat)) ∧
    (∀ v, (DecodeZigzag64 (EncodeZigzag64 v)).toInt64 = v ↔ -2 ^ 31 ≤ v.toInt ∧ v.toInt < 2 ^ 31) ∧
    (∀ u, EncodeZigzag64 (DecodeZigzag64 u).toInt64 = u ↔ u.toNat < 2 ^ 32) ∧
    ∀ v, RoundTrips (writeInt64 fresh v) readInt64 v b ↔
      CapacityOk b (groupCount (EncodeZigzag64 v).toNat) ∧ -2 ^ 31 ≤ v.toInt ∧ v.toInt < 2 ^ 31 :=
  ⟨decode_encode32, encode_decode32, int32_roundTrips_iff h, decode_encode64_iff, encode_decode64_iff,
    int64_roundTrips_iff h⟩

/-- The least value of 32 bits, and one of 64. -/
theorem zigzags_iff_least :
    RoundTrips (writeInt32 (fun _ _ => 0) Int32.minValue) readInt32 Int32.minValue (ByteArray.new (fun _ => 0) 16) ∧
    RoundTrips (writeInt64 (fun _ _ => 0) (-3)) readInt64 (-3) (ByteArray.new (fun _ => 0) 16) :=
  ⟨((zigzags_iff (inv_new (by decide) _) _).2.2.1 _).mpr (by decide +kernel),
    ((zigzags_iff (inv_new (by decide) _) _).2.2.2.2.2 _).mpr (by decide +kernel)⟩

/-- `2 ^ 31` comes back negative. -/
theorem wide_lost : ¬∀ v : Int64, RoundTrips (writeInt64 (fun _ _ => 0) v) readInt64 v (ByteArray.new (fun _ => 0) 16) := by
  intro h
  have hlt := ((int64_roundTrips_iff (inv_new (by decide) _) _).mp (h (2 ^ 31))).2.2
  exact absurd hlt (by decide)

end ByteArray
end MyHttp
