import MyHttp.Theorems.ByteArray.Access
import Mathlib.Algebra.Order.BigOperators.Group.List

/-! Values of fixed width, one after another. Every writer stores the image of its value, and every reader but one takes as
    many bytes: `readDouble` takes four of the eight that `writeDouble` has stored, and what follows is read from the
    middle of them. -/

namespace MyHttp
namespace ByteArray

open Lib.Chunks Lib.Octets

variable {α β : Type} {b b' : ByteArray} {host : Endian} {fresh : Nat → Nat → UInt8} {r : List UInt8} {n v : Nat}

namespace Kind

/-- The bytes a value is stored in. -/
def width : Kind → Nat
  | .int8 | .uint8 => 1
  | .int16 | .uint16 => 2
  | .int32 | .uint32 | .float => 4
  | .int64 | .uint64 | .double => 8

/-- The bytes the reader takes. -/
def taken : Kind → Nat
  | .double => 4
  | k => k.width

/-- The pattern of a value, as a number. -/
def bits : (k : Kind) → k.Value → Nat
  | .int8, v => UInt8.toNat (Int8.toUInt8 v)
  | .uint8, v => UInt8.toNat v
  | .int16, v => UInt16.toNat (Int16.toUInt16 v)
  | .uint16, v => UInt16.toNat v
  | .int32, v => UInt32.toNat (Int32.toUInt32 v)
  | .uint32, v | .float, v => UInt32.toNat v
  | .int64, v => UInt64.toNat (Int64.toUInt64 v)
  | .uint64, v | .double, v => UInt64.toNat v

end Kind

/-- The bytes that belong to a row of values. -/
def images (order : Endian) (vs : List (Sigma Kind.Value)) : List UInt8 :=
  vs.flatMap fun v => image order v.1.width (v.1.bits v.2)

/-! ### One value -/

theorem image_byte {order : Endian} {x : UInt8} : image order 1 x.toNat = [x] := by
  have hbyte : toBytes 1 x.toNat = [x] := by
    rw [toBytes, UInt8.ofNat_toNat]
    rfl
  cases order with
  | little => exact hbyte
  | big => exact congrArg List.reverse hbyte

/-- The member writes the image of the value. -/
theorem Kind.write_eq (k : Kind) (v : k.Value) :
    k.write host fresh v b = put fresh (image b.endian k.width (k.bits v)) b := by
  cases k with
  | int8 => exact congrArg (put fresh · b) image_byte.symm
  | uint8 => exact congrArg (put fresh · b) image_byte.symm
  | int16 | uint16 | int32 | uint32 | int64 | uint64 | float | double => exact writeF_eq

/-- `read` returns the value whose `n` bytes are next, before `r`. -/
def Yields (read : Access α) (value : α) (b : ByteArray) (n : Nat) (r : List UInt8) : Prop :=
  ∃ b', read b = .ok value b' ∧ Reads b' r ∧ Passed b n b'

theorem Yields.map {read : Access α} {value : α} (h : Yields read value b n r) (f : α → β) :
    Yields (read >>= fun v => pure (f v)) (f value) b n r := by
  obtain ⟨b', hread, hrest⟩ := h
  exact ⟨b', bind_ok hread, hrest⟩

theorem readF_yields (host : Endian) (hn : 0 < n) (hv : v < 256 ^ n) (h : Reads b (image b.endian n v ++ r)) :
    Yields (readF host n) v b n r := by
  obtain ⟨b', hread, hrest⟩ := readF_image hn h
  rw [Nat.mod_eq_of_lt hv] at hread
  exact ⟨b', hread, hrest⟩

theorem readFuint8_yields (value : UInt8) (h : Reads b (image b.endian 1 value.toNat ++ r)) :
    Yields readFuint8 value b 1 r := by
  rw [image_byte] at h
  exact readFuint8_cons h

theorem readFuint16_yields (host : Endian) (value : UInt16) (h : Reads b (image b.endian 2 value.toNat ++ r)) :
    Yields (readFuint16 host) value b 2 r := by
  have hread := (readF_yields host (by decide) value.toNat_lt h).map UInt16.ofNat
  rwa [UInt16.ofNat_toNat] at hread

theorem readFuint32_yields (host : Endian) (value : UInt32) (h : Reads b (image b.endian 4 value.toNat ++ r)) :
    Yields (readFuint32 host) value b 4 r := by
  have hread := (readF_yields host (by decide) value.toNat_lt h).map UInt32.ofNat
  rwa [UInt32.ofNat_toNat] at hread

theorem readFuint64_yields (host : Endian) (value : UInt64) (h : Reads b (image b.endian 8 value.toNat ++ r)) :
    Yields (readFuint64 host) value b 8 r := by
  have hread := (readF_yields host (by decide) value.toNat_lt h).map UInt64.ofNat
  rwa [UInt64.ofNat_toNat] at hread

/-- The reader that matches returns the value, unless it is a `double`. -/
theorem Kind.read_yields (host : Endian) {k : Kind} (hk : k ≠ .double) (v : k.Value)
    (h : Reads b (image b.endian k.width (k.bits v) ++ r)) : Yields (k.read host) v b k.width r := by
  cases k with
  | int8 => exact (readFuint8_yields _ h).map UInt8.toInt8
  | uint8 => exact readFuint8_yields _ h
  | int16 => exact (readFuint16_yields host _ h).map UInt16.toInt16
  | uint16 => exact readFuint16_yields host _ h
  | int32 => exact (readFuint32_yields host _ h).map UInt32.toInt32
  | uint32 | float => exact readFuint32_yields host _ h
  | int64 => exact (readFuint64_yields host _ h).map UInt64.toInt64
  | uint64 => exact readFuint64_yields host _ h
  | double => exact absurd rfl hk

/-- Whatever it returns, `read` passes over `n` bytes. -/
def Takes (read : Access α) (n : Nat) : Prop :=
  ∀ b value b', Inv b → read b = .ok value b' → Inv b' ∧ Passed b n b'

theorem Takes.map {read : Access α} (h : Takes read n) (f : α → β) : Takes (read >>= fun v => pure (f v)) n := by
  intro b value b' hinv hread
  obtain ⟨v, c, hv, hpure⟩ := bind_inv hread
  cases hpure
  exact h b v b' hinv hv

theorem readF_takes : Takes (readF host n) n := by
  intro b value b' hinv hread
  obtain ⟨data, htake, -⟩ := readF_inv hinv hread
  obtain ⟨hinv', -, -, hpassed⟩ := hinv.took htake
  exact ⟨hinv', hpassed⟩

theorem readFuint8_takes : Takes readFuint8 1 := by
  have htake : Takes (take 1) 1 := by
    intro b value b' hinv htake
    obtain ⟨hinv', -, -, hpassed⟩ := hinv.took htake
    exact ⟨hinv', hpassed⟩
  exact htake.map _

theorem Kind.read_takes (host : Endian) (k : Kind) : Takes (k.read host) k.taken := by
  cases k with
  | int8 => exact readFuint8_takes.map _
  | uint8 => exact readFuint8_takes
  | uint16 | uint32 | uint64 | float => exact readF_takes.map _
  | int16 | int32 | int64 | double => exact (readF_takes.map _).map _

theorem Kind.taken_le (k : Kind) : k.taken ≤ k.width := by
  cases k <;> decide

/-! ### A row of values -/

theorem length_images {order : Endian} (vs : List (Sigma Kind.Value)) :
    (images order vs).length = (vs.map fun v => v.1.width).sum := by
  rw [images, List.length_flatMap]
  simp only [length_image]

theorem images_cons {order : Endian} (v : Sigma Kind.Value) (vs : List (Sigma Kind.Value)) :
    images order (v :: vs) = image order v.1.width (v.1.bits v.2) ++ images order vs := List.flatMap_cons

theorem Inv.writeAll (h : Inv b) (host : Endian) (fresh : Nat → Nat → UInt8) (vs : List (Sigma Kind.Value))
    (hroom : (images b.endian vs).length ≤ b.getCapacity) :
    ∃ b', ByteArray.writeAll host fresh vs b = .ok () b' ∧ Wrote b (images b.endian vs) b' := by
  induction vs generalizing b with
  | nil => exact ⟨b, rfl, .refl h⟩
  | cons v vs ih =>
    rw [images_cons, List.length_append] at hroom
    obtain ⟨b₁, hput, hwrote, hcapacity⟩ := h.put_room fresh (Nat.le_of_add_right_le hroom)
    have hrest : (images b₁.endian vs).length ≤ b₁.getCapacity := by
      rw [hwrote.endian, getCapacity, hwrote.position, hcapacity]
      rw [getCapacity] at hroom
      omega
    obtain ⟨b', hwrite, hwrote'⟩ := ih hwrote.inv hrest
    rw [hwrote.endian] at hwrote'
    refine ⟨b', ?_, ?_⟩
    · have hfirst : v.1.write host fresh v.2 b = .ok () b₁ := (Kind.write_eq v.1 v.2).trans hput
      exact (bind_ok hfirst).trans hwrite
    · rw [images_cons]
      exact hwrote.trans hwrote'

theorem readAll_yields (host : Endian) {vs : List (Sigma Kind.Value)} (hvs : ∀ v ∈ vs, v.1 ≠ .double)
    (h : Reads b (images b.endian vs)) : Yields (readAll host (vs.map Sigma.fst)) vs b (images b.endian vs).length [] := by
  induction vs generalizing b with
  | nil => exact ⟨b, rfl, h, .refl⟩
  | cons v vs ih =>
    rw [images_cons] at h ⊢
    obtain ⟨b₁, hread, hreads, hpassed⟩ := Kind.read_yields host (hvs v List.mem_cons_self) v.2 h
    rw [← hpassed.endian] at hreads ⊢
    obtain ⟨b', hread', hreads', hpassed'⟩ := ih (fun w hw => hvs w (List.mem_cons_of_mem v hw)) hreads
    refine ⟨b', ?_, hreads', ?_⟩
    · exact (bind_ok hread).trans (bind_ok hread')
    · rw [List.length_append, length_image]
      exact hpassed.trans hpassed'

theorem readAll_takes (host : Endian) (ks : List Kind) : Takes (readAll host ks) (ks.map Kind.taken).sum := by
  induction ks with
  | nil =>
    intro b value b' hinv hread
    cases hread
    exact ⟨hinv, .refl⟩
  | cons k ks ih =>
    intro b value b' hinv hread
    obtain ⟨v, b₁, hfirst, hrest⟩ := bind_inv hread
    obtain ⟨hinv₁, hpassed⟩ := Kind.read_takes host k b v b₁ hinv hfirst
    obtain ⟨hinv', hpassed'⟩ := ih.map _ b₁ value b' hinv₁ hrest
    rw [List.map_cons, List.sum_cons]
    exact ⟨hinv', hpassed.trans hpassed'⟩

/-- The readers of a row with a `double` end before the writers. -/
theorem taken_lt {vs : List (Sigma Kind.Value)} (h : ∃ v ∈ vs, v.1 = .double) :
    ((vs.map Sigma.fst).map Kind.taken).sum < (vs.map fun v => v.1.width).sum := by
  rw [List.map_map]
  refine List.sum_lt_sum _ _ (fun v _ => v.1.taken_le) ?_
  obtain ⟨v, hv, hdouble⟩ := h
  refine ⟨v, hv, ?_⟩
  show v.1.taken < v.1.width
  rw [hdouble]
  decide

theorem row_roundTrips_iff (h : Inv b) (host : Endian) (fresh : Nat → Nat → UInt8) (vs : List (Sigma Kind.Value))
    (hroom : (images b.endian vs).length ≤ b.getCapacity) :
    RoundTrips (writeAll host fresh vs) (readAll host (vs.map Sigma.fst)) vs b ↔ ∀ v ∈ vs, v.1 ≠ .double := by
  obtain ⟨b₁, hwrite, hwrote⟩ := h.writeAll host fresh vs hroom
  obtain ⟨b₂, hback, hreads, hendian, -, hposition⟩ := hwrote.back
  rw [roundTrips_iff_read hwrite hback]
  constructor
  · rintro ⟨b₃, hread, hend⟩ v hv hdouble
    obtain ⟨-, hpassed⟩ := readAll_takes host _ b₂ vs b₃ hreads.inv hread
    rw [hpassed.position, hposition, hwrote.position, length_images] at hend
    exact (taken_lt ⟨v, hv, hdouble⟩).ne (Nat.add_left_cancel hend)
  · intro hvs
    rw [← hendian] at hreads hwrote
    obtain ⟨b₃, hread, -, hpassed⟩ := readAll_yields host hvs hreads
    exact ⟨b₃, hread, by rw [hpassed.position, hposition, hwrote.position]⟩

/-- With room for them, values are stored as their images in the order of the array, wherever the nodes end; they are read
    back exactly if no `double` is among them. -/
theorem fixedWidth_iff (h : Inv b) (host : Endian) (fresh : Nat → Nat → UInt8) (vs : List (Sigma Kind.Value))
    (hroom : (images b.endian vs).length ≤ b.getCapacity) :
    (∃ b', writeAll host fresh vs b = .ok () b' ∧ Wrote b (images b.endian vs) b') ∧
    (RoundTrips (writeAll host fresh vs) (readAll host (vs.map Sigma.fst)) vs b ↔ ∀ v ∈ vs, v.1 ≠ .double) :=
  ⟨h.writeAll host fresh vs hroom, row_roundTrips_iff h host fresh vs hroom⟩

/-- Six bytes across the end of the first node. -/
theorem fixedWidth_iff_across : RoundTrips (writeAll .little (fun _ _ => 0) [⟨.int16, (-2 : Int16)⟩, ⟨.float, (0x3f800000 : UInt32)⟩])
    (readAll .little [.int16, .float]) [⟨.int16, (-2 : Int16)⟩, ⟨.float, (0x3f800000 : UInt32)⟩]
    (halfFull.addCapacity (fun _ _ => 0) 8) := by
  have hinv : Inv halfFull := halfFull_reachable.inv (by decide)
  exact (fixedWidth_iff (hinv.addCapacity 8) _ _ _ (by decide)).2.mpr (by decide)

/-- The pattern of 1.0: its low half is not read. -/
theorem double_lost : ¬∀ (B : Nat) (b : ByteArray) (host : Endian) (fresh : Nat → Nat → UInt8) (vs : List (Sigma Kind.Value)),
    1 ≤ B → Reachable B b → (images b.endian vs).length ≤ b.getCapacity →
      RoundTrips (writeAll host fresh vs) (readAll host (vs.map Sigma.fst)) vs b := by
  intro h
  have hreached : Reachable 16 (ByteArray.new (fun _ => 0) 16) := ⟨_, .start⟩
  have hall := (row_roundTrips_iff (hreached.inv (by decide)) _ _ _ (by decide)).mp
    (h 16 _ .little (fun _ _ => 0) [⟨.double, (0x3ff0000000000000 : UInt64)⟩] (by decide) hreached (by decide))
  exact hall _ List.mem_cons_self rfl

end ByteArray
end MyHttp
