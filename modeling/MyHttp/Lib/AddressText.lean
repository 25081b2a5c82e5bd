import MyHttp.Lib.CString

/-! Numbers in hexadecimal digits, and the texts of addresses of eight groups of them (RFC 4291). -/

namespace Lib.AddressText

open Lib.CString

variable {s t : Bytes} {n d : Nat} {g : BitVec 16} {gs front back : List (BitVec 16)}

/-! ### Hexadecimal numbers -/

/-- A number in hexadecimal digits, as `std::hex` writes it. -/
def hexText (n : Nat) : Bytes := (Nat.toDigits 16 n).map fun c => UInt8.ofNat c.toNat

/-- The byte of a digit. -/
def hexDigit (d : Nat) : UInt8 := UInt8.ofNat d.digitChar.toNat

theorem digit_hexDigit : ∀ d < 16, digit (hexDigit d) = some d := by decide

theorem isxdigit_hexDigit (h : d < 16) : isxdigit (hexDigit d) = true := by
  rw [isxdigit, digit_hexDigit d h]
  exact decide_eq_true h

/-- The last digit comes off the end. -/
theorem hexText_eq (n : Nat) : hexText n = (if n < 16 then [] else hexText (n / 16)) ++ [hexDigit (n % 16)] := by
  rw [hexText, Nat.toDigits_eq_if (by decide)]
  split
  · rename_i hlt
    rw [Nat.mod_eq_of_lt hlt]
    rfl
  · rw [List.map_append]
    rfl

theorem isxdigit_of_hexText (n : Nat) : ∀ c ∈ hexText n, isxdigit c = true := by
  induction n using Nat.strongRecOn with
  | ind n ih =>
    intro c hc
    rw [hexText_eq, List.mem_append] at hc
    rcases hc with hc | hc
    · split at hc
      · cases hc
      · exact ih (n / 16) (by omega) c hc
    · rw [List.mem_singleton.mp hc]
      exact isxdigit_hexDigit (Nat.mod_lt n (by decide))

theorem digits_hexText (n : Nat) : digits 16 0 (hexText n) = n := by
  induction n using Nat.strongRecOn with
  | ind n ih =>
    have hlast : ∀ acc, digits 16 acc [hexDigit (n % 16)] = acc * 16 + n % 16 := fun acc => by
      have hlt : n % 16 < 16 := Nat.mod_lt n (by decide)
      rw [digits, digit_hexDigit _ hlt]
      exact if_pos hlt
    rw [hexText_eq]
    split
    · rename_i hlt
      rw [List.nil_append, hlast, Nat.zero_mul, Nat.zero_add, Nat.mod_eq_of_lt hlt]
    · rw [digits_append (isxdigit_of_hexText _), ih (n / 16) (by omega), hlast, Nat.div_add_mod']

theorem hexText_length_pos (n : Nat) : 0 < (hexText n).length := by
  rw [hexText, List.length_map]
  exact Nat.length_toDigits_pos

theorem hexText_length_le (h : n < 2 ^ 16) : (hexText n).length ≤ 4 := by
  rw [hexText, List.length_map]
  exact (Nat.length_toDigits_le_iff (by decide) (by decide)).mpr h

/-! ### Reading an address -/

/-- A group has one to four hexadecimal digits. -/
def readGroup (s : Bytes) : Option (BitVec 16) :=
  if 1 ≤ s.length ∧ s.length ≤ 4 ∧ s.all isxdigit then some (BitVec.ofNat 16 (digits 16 0 s)) else none

/-- The groups between colons; an empty text has none. -/
def readGroups (s : Bytes) : Option (List (BitVec 16)) :=
  if s = [] then some [] else (s.splitOn 58).mapM readGroup

/-- The texts before and behind the first `::`. -/
def cutAtGap : Bytes → Option (Bytes × Bytes)
  | [] => none
  | c :: s => if c = 58 ∧ s.head? = some 58 then some ([], s.tail) else (cutAtGap s).map fun cut => (c :: cut.1, cut.2)

/-- The eight groups of an address in hexadecimal form; a `::`, of which there is at most one, stands for one or more
    groups of zeros. -/
def readAddress (s : Bytes) : Option (List (BitVec 16)) :=
  match cutAtGap s with
  | none => (readGroups s).filter fun groups => groups.length = 8
  | some cut =>
    (readGroups cut.1).bind fun front =>
      (readGroups cut.2).bind fun back =>
        if front.length + back.length ≤ 7 then some (front ++ List.replicate (8 - (front.length + back.length)) 0 ++ back)
        else none

/-! ### Reading what is written -/

/-- Groups with colons between them. -/
def joined (gs : List (BitVec 16)) : Bytes := [58].intercalate (gs.map fun g => hexText g.toNat)

theorem joined_cons_cons {h : BitVec 16} : joined (g :: h :: gs) = hexText g.toNat ++ 58 :: joined (h :: gs) := by
  rw [joined, List.map_cons, List.map_cons, List.intercalate_cons_cons, List.append_assoc]
  rfl

theorem joined_singleton : joined [g] = hexText g.toNat := List.intercalate_singleton

/-- One more group stands behind a colon, if it is not the first. -/
theorem joined_concat : joined (gs ++ [g]) = joined gs ++ (if gs = [] then [] else [58]) ++ hexText g.toNat := by
  induction gs with
  | nil => exact joined_singleton
  | cons h gs ih =>
    rw [if_neg (List.cons_ne_nil _ _)]
    cases gs with
    | nil =>
      rw [List.cons_append, List.nil_append, joined_cons_cons, joined_singleton, joined_singleton, List.append_assoc]
      rfl
    | cons k gs =>
      rw [if_neg (List.cons_ne_nil _ _)] at ih
      rw [List.cons_append, List.cons_append, joined_cons_cons, joined_cons_cons, ← List.cons_append, ih]
      simp only [List.append_assoc, List.cons_append]

theorem colon_notMem_hexText (n : Nat) : 58 ∉ hexText n := fun h =>
  absurd (isxdigit_of_hexText n 58 h) (by decide)

theorem readGroup_hexText : readGroup (hexText g.toNat) = some g := by
  rw [readGroup, if_pos ⟨hexText_length_pos _, hexText_length_le g.isLt, List.all_eq_true.mpr (isxdigit_of_hexText _)⟩,
    digits_hexText, BitVec.ofNat_toNat, BitVec.setWidth_eq]

theorem joined_eq_nil : joined gs = [] ↔ gs = [] := by
  refine ⟨fun h => ?_, fun h => h ▸ rfl⟩
  cases gs with
  | nil => rfl
  | cons g gs =>
    have hpos : hexText g.toNat ≠ [] := List.ne_nil_of_length_pos (hexText_length_pos _)
    cases gs with
    | nil => exact absurd (joined_singleton.symm.trans h) hpos
    | cons k gs => exact absurd (List.append_eq_nil_iff.mp (joined_cons_cons.symm.trans h)).1 hpos

theorem readGroups_joined : readGroups (joined gs) = some gs := by
  rw [readGroups]
  split
  · rename_i h
    rw [joined_eq_nil.mp h]
  · rename_i h
    have hne : gs.map (fun g => hexText g.toNat) ≠ [] := mt List.map_eq_nil_iff.mp (mt joined_eq_nil.mpr h)
    have hcolon : ∀ s ∈ gs.map fun g => hexText g.toNat, 58 ∉ s := by
      intro s hs
      obtain ⟨g, -, rfl⟩ := List.mem_map.mp hs
      exact colon_notMem_hexText _
    rw [joined, List.splitOn_intercalate 58 hcolon hne]
    clear h hne hcolon
    induction gs with
    | nil => rfl
    | cons g gs ih =>
      rw [List.map_cons, List.mapM_cons, readGroup_hexText, ih]
      rfl

theorem notMem_joined {c : UInt8} (hdigit : isxdigit c = false) (hcolon : c ≠ 58) : c ∉ joined gs := by
  intro h
  induction gs with
  | nil => cases h
  | cons g gs ih =>
    have hg : c ∉ hexText g.toNat := fun hmem => Bool.false_ne_true (hdigit.symm.trans (isxdigit_of_hexText _ c hmem))
    cases gs with
    | nil => exact hg (joined_singleton ▸ h)
    | cons k gs =>
      rw [joined_cons_cons, List.mem_append, List.mem_cons] at h
      rcases h with h | h | h
      · exact hg h
      · exact hcolon h
      · exact ih h

/-- There is no gap within a text without colons. -/
theorem cutAtGap_append (h : 58 ∉ s) : cutAtGap (s ++ t) = (cutAtGap t).map fun cut => (s ++ cut.1, cut.2) := by
  induction s with
  | nil => exact Option.map_id'.symm
  | cons c s ih =>
    obtain ⟨hc, hs⟩ := not_or.mp (mt List.mem_cons.mpr h)
    rw [List.cons_append, cutAtGap, if_neg fun heq => hc heq.1.symm, ih hs, Option.map_map]
    rfl

theorem joined_head : (joined (g :: gs) ++ t).head? ≠ some 58 := by
  intro h
  have hstart : ∃ rest, joined (g :: gs) ++ t = hexText g.toNat ++ rest := by
    cases gs with
    | nil => exact ⟨t, congrArg (· ++ t) joined_singleton⟩
    | cons k gs => exact ⟨58 :: joined (k :: gs) ++ t, by rw [joined_cons_cons, List.append_assoc]⟩
  obtain ⟨rest, hrest⟩ := hstart
  obtain ⟨c, digits, hc⟩ := List.exists_cons_of_length_pos (hexText_length_pos g.toNat)
  rw [hrest, hc] at h
  exact colon_notMem_hexText g.toNat (hc ▸ Option.some.inj h ▸ List.mem_cons_self)

theorem cutAtGap_joined (h : cutAtGap t = none) : cutAtGap (joined gs ++ t) = none := by
  induction gs with
  | nil => exact h
  | cons g gs ih =>
    cases gs with
    | nil =>
      rw [joined_singleton, cutAtGap_append (colon_notMem_hexText _), h]
      rfl
    | cons k gs =>
      rw [joined_cons_cons, List.append_assoc, cutAtGap_append (colon_notMem_hexText _), List.cons_append, cutAtGap,
        if_neg fun heq => joined_head heq.2, ih]
      rfl

/-- The first gap is where no colon comes before it. -/
theorem cutAtGap_gap (h : cutAtGap (s ++ [58]) = none) : cutAtGap (s ++ 58 :: 58 :: t) = some (s, t) := by
  induction s with
  | nil => rfl
  | cons c s ih =>
    have hhead : (s ++ 58 :: 58 :: t).head? = (s ++ [58]).head? := by cases s <;> rfl
    rw [List.cons_append, cutAtGap] at h
    split at h
    · cases h
    · rename_i hne
      rw [List.cons_append, cutAtGap, hhead, if_neg hne, ih (Option.map_eq_none_iff.mp h)]
      rfl

/-- Eight groups are read back. -/
theorem readAddress_joined (h : gs.length = 8) : readAddress (joined gs) = some gs := by
  have hgap : cutAtGap (joined gs ++ []) = none := cutAtGap_joined rfl
  rw [List.append_nil] at hgap
  rw [readAddress, hgap]
  dsimp only
  rw [readGroups_joined, Option.filter_some, if_pos (decide_eq_true h)]

/-- Fewer than eight groups with a gap are read back, with zeros at the gap. -/
theorem readAddress_gap (h : front.length + back.length ≤ 7) :
    readAddress (joined front ++ 58 :: 58 :: joined back) =
      some (front ++ List.replicate (8 - (front.length + back.length)) 0 ++ back) := by
  rw [readAddress, cutAtGap_gap (cutAtGap_joined rfl)]
  dsimp only
  rw [readGroups_joined, readGroups_joined]
  exact if_pos h

example : readAddress (ascii "2001:db8::1") = some [0x2001, 0xdb8, 0, 0, 0, 0, 0, 1] := by decide

example : readAddress (ascii "1::2::3") = none := by decide

end Lib.AddressText
