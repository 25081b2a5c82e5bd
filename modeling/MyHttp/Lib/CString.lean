import Mathlib.Algebra.Group.Int.Defs
import Mathlib.Algebra.Group.Nat.Defs
import Mathlib.Data.List.Basic
import Mathlib.Tactic.SplitIfs

/-! The functions of the C library on character strings that end at a NUL, over lists of bytes: the end of the list
    stands for the NUL. -/

namespace Lib.CString

abbrev Bytes := List UInt8

/-- What is asked of every byte of a text is asked of these only, and not of every byte there is. -/
instance (priority := 1100) decidableForallMem (p : UInt8 → Prop) [DecidablePred p] (s : Bytes) :
    Decidable (∀ c ∈ s, p c) :=
  List.decidableBAll p s

/-- The bytes of a text in ASCII. -/
def ascii (s : String) : Bytes := s.toList.map fun c => UInt8.ofNat c.toNat

def isspace (c : UInt8) : Bool := c = 32 || (9 ≤ c && c ≤ 13)

/-- The value of a digit or letter. -/
def digit (c : UInt8) : Option Nat :=
  if 48 ≤ c ∧ c ≤ 57 then some (c.toNat - 48)
  else if 65 ≤ c ∧ c ≤ 90 then some (c.toNat - 55)
  else if 97 ≤ c ∧ c ≤ 122 then some (c.toNat - 87)
  else none

def isxdigit (c : UInt8) : Bool := (digit c).any (· < 16)

/-- The longest prefix of digits in a base, read as a number. -/
def digits (base acc : Nat) : Bytes → Nat
  | [] => acc
  | c :: cs =>
    match digit c with
    | some d => if d < base then digits base (acc * base + d) cs else acc
    | none => acc

/-- `0x` is skipped in base 16 when a digit follows. -/
def skipPrefix (base : Nat) : Bytes → Bytes
  | 48 :: x :: c :: cs =>
    if base = 16 ∧ (x = 120 ∨ x = 88) ∧ (digit c).any (· < 16) = true then c :: cs else 48 :: x :: c :: cs
  | s => s

/-- `strtol` to a `long` of 64 bits. -/
def strtol (s : Bytes) (base : Nat) : Int :=
  match s.dropWhile isspace with
  | 45 :: cs => max (-2 ^ 63) (-(digits base 0 (skipPrefix base cs) : Int))
  | 43 :: cs => min (2 ^ 63 - 1) (digits base 0 (skipPrefix base cs) : Int)
  | cs => min (2 ^ 63 - 1) (digits base 0 (skipPrefix base cs) : Int)

/-- Whether `strncmp` finds the first `n` bytes equal. -/
def strncmpEq (s t : Bytes) : Nat → Bool
  | 0 => true
  | n + 1 => s.headD 0 = t.headD 0 && (s.headD 0 = 0 || strncmpEq s.tail t.tail n)

def tolower (c : UInt8) : UInt8 := if 65 ≤ c ∧ c ≤ 90 then c + 32 else c

/-- Whether `strcasecmp` puts the first string before the second. -/
def strcaseLess : Bytes → Bytes → Bool
  | _, [] => false
  | [], c :: _ => c ≠ 0
  | a :: s, b :: t => tolower a < tolower b || (tolower a = tolower b && a ≠ 0 && strcaseLess s t)

/-- Whether `strcasecmp` finds no difference. -/
def strcaseEquiv (s t : Bytes) : Bool := !strcaseLess s t && !strcaseLess t s

/-! ### Comparisons -/

variable {s t u : Bytes} {n : Nat}

theorem strncmpEq_take : strncmpEq (s.take n) t n = strncmpEq s t n := by
  induction n generalizing s t with
  | zero => rfl
  | succ n ih => cases s <;> simp [strncmpEq, ih]

/-- A comparison with a string does not go beyond a byte that is not in the string. -/
theorem strncmpEq_stop {c : UInt8} {v w : Bytes} (hc : c ∉ s) (hn : n ≤ s.length) :
    strncmpEq s (u ++ c :: v) n = strncmpEq s (u ++ c :: w) n := by
  induction n generalizing s u with
  | zero => rfl
  | succ n ih =>
    cases s with
    | nil => exact absurd hn (Nat.not_succ_le_zero n)
    | cons a s =>
      obtain ⟨ha, hs⟩ := not_or.mp (mt List.mem_cons.mpr hc)
      cases u with
      | nil => simp [strncmpEq, Ne.symm ha]
      | cons b u =>
        have hrest := ih (u := u) hs (Nat.le_of_succ_le_succ hn)
        simp [strncmpEq, hrest]

/-- A string without NUL is found equal to the beginning of a longer one exactly when that begins with it. -/
theorem strncmpEq_iff_prefix (hs : 0 ∉ s) : strncmpEq s t s.length = true ↔ s <+: t := by
  induction s generalizing t with
  | nil => simp [strncmpEq]
  | cons a s ih =>
    obtain ⟨ha, hs⟩ := not_or.mp (mt List.mem_cons.mpr hs)
    cases t with
    | nil => simp [strncmpEq, Ne.symm ha]
    | cons b t =>
      rw [List.cons_prefix_cons, ← ih hs]
      simp [strncmpEq, Ne.symm ha]

/-- What `strcasecmp` sees of a string. -/
def caseless (s : Bytes) : Bytes := (s.takeWhile (· ≠ 0)).map tolower

/-- Only letters become letters. -/
theorem tolower_eq_iff {c d : UInt8} (hd : d.toNat < 65) : tolower c = d ↔ c = d := by
  unfold tolower
  split
  · rename_i h
    have hlow : 65 ≤ c.toNat := h.1
    have hhigh : c.toNat ≤ 90 := h.2
    simp only [← UInt8.toNat_inj, UInt8.toNat_add, UInt8.reduceToNat]
    omega
  · rfl

theorem tolower_eq_zero {c : UInt8} : tolower c = 0 ↔ c = 0 := tolower_eq_iff (by decide)

theorem caseless_cons {c : UInt8} : caseless (c :: s) = if c = 0 then [] else tolower c :: caseless s := by
  by_cases hc : c = 0 <;> simp [caseless, hc]

theorem strcaseEquiv_cons {a b : UInt8} :
    strcaseEquiv (a :: s) (b :: t) = true ↔ tolower a = tolower b ∧ (a = 0 ∨ strcaseEquiv s t = true) := by
  have hzero : tolower a = tolower b → (a = 0 ↔ b = 0) := fun h => by
    rw [← tolower_eq_zero, h, tolower_eq_zero]
  simp only [strcaseEquiv, strcaseLess, Bool.and_eq_true, Bool.not_eq_true', Bool.or_eq_false_iff, decide_eq_false_iff_not,
    UInt8.not_lt]
  constructor
  · rintro ⟨⟨hle, hs⟩, hge, ht⟩
    have heq : tolower a = tolower b := UInt8.le_antisymm hge hle
    refine ⟨heq, or_iff_not_imp_left.mpr fun ha => ?_⟩
    simp_all
  · rintro ⟨heq, h⟩
    rcases h with ha | h <;> simp_all

theorem strcaseEquiv_iff : strcaseEquiv s t = true ↔ caseless s = caseless t := by
  induction s generalizing t with
  | nil =>
    cases t with
    | nil => simp [strcaseEquiv, strcaseLess]
    | cons b t => by_cases hb : b = 0 <;> simp [strcaseEquiv, strcaseLess, caseless, hb]
  | cons a s ih =>
    cases t with
    | nil => by_cases ha : a = 0 <;> simp [strcaseEquiv, strcaseLess, caseless, ha]
    | cons b t =>
      have hzero : tolower a = tolower b → (a = 0 ↔ b = 0) := fun h => by
        rw [← tolower_eq_zero, h, tolower_eq_zero]
      rw [strcaseEquiv_cons, caseless_cons, caseless_cons, ih]
      by_cases ha : a = 0 <;> by_cases hb : b = 0 <;> simp only [ha, hb, if_true, if_false]
      · simp
      · exact iff_of_false (fun h => hb ((hzero (ha ▸ h.1)).mp ha)) (by simp)
      · exact iff_of_false (fun h => ha ((hzero (hb ▸ h.1)).mpr hb)) (by simp)
      · simp

/-- `strcasecmp` orders the strings as lists of what it sees of them. -/
theorem strcaseLess_iff : strcaseLess s t = true ↔ caseless s < caseless t := by
  induction s generalizing t with
  | nil =>
    cases t with
    | nil => simp [strcaseLess, caseless]
    | cons b t => by_cases hb : b = 0 <;> simp [strcaseLess, caseless, hb]
  | cons a s ih =>
    cases t with
    | nil => simp [strcaseLess, caseless]
    | cons b t =>
      have hlow : tolower 0 = 0 := tolower_eq_zero.mpr rfl
      rw [strcaseLess, caseless_cons, caseless_cons]
      by_cases ha : a = 0
      · by_cases hb : b = 0
        · simp [ha, hb]
        · have hpos : 0 < tolower b := UInt8.pos_iff_ne_zero.mpr (mt tolower_eq_zero.mp hb)
          simp [ha, hb, hlow, hpos]
      · by_cases hb : b = 0
        · simp [ha, hb, hlow, tolower_eq_zero]
        · simp [ha, hb, List.cons_lt_cons_iff, ih]

theorem strcaseLess_trans (h : strcaseLess s t = true) (h' : strcaseLess t u = true) : strcaseLess s u = true :=
  strcaseLess_iff.mpr (List.lt_trans (strcaseLess_iff.mp h) (strcaseLess_iff.mp h'))
theorem strcaseEquiv_comm : strcaseEquiv s t = strcaseEquiv t s := Bool.and_comm ..

theorem strcaseEquiv_congr (h : strcaseEquiv s t = true) : strcaseEquiv s u = strcaseEquiv t u := by
  rw [strcaseEquiv_iff] at h
  rw [Bool.eq_iff_iff, strcaseEquiv_iff, strcaseEquiv_iff, h]

/-! ### Numbers -/

variable {base acc : Nat} {c : UInt8}

theorem digits_append (h : ∀ c ∈ s, (digit c).any (· < base) = true) :
    digits base acc (s ++ t) = digits base (digits base acc s) t := by
  induction s generalizing acc with
  | nil => rfl
  | cons c s ih =>
    obtain ⟨d, hd, hlt⟩ := Option.any_eq_true _ _ |>.mp (h c List.mem_cons_self)
    have hlt : d < base := of_decide_eq_true hlt
    simp only [List.cons_append, digits, hd, hlt, if_true]
    exact ih fun c hc => h c (List.mem_cons_of_mem _ hc)

theorem digits_stop (h : (digit c).any (· < base) = false) : digits base acc (c :: s) = acc := by
  unfold digits
  cases hd : digit c with
  | none => rfl
  | some d =>
    have hlt : ¬ d < base := by simpa [hd] using h
    simp [hlt]

/-- Leading zeros do not count. -/
theorem digits_zeros (h : ∀ c ∈ s, c = 48) (hbase : 0 < base) : digits base 0 (s ++ t) = digits base 0 t := by
  induction s with
  | nil => rfl
  | cons c s ih =>
    obtain rfl := h c List.mem_cons_self
    have hd : digit 48 = some 0 := rfl
    simp only [List.cons_append, digits, hd, hbase, if_true, Nat.zero_mul, Nat.add_zero]
    exact ih fun c hc => h c (List.mem_cons_of_mem _ hc)

theorem isxdigit_bounds (h : isxdigit c = true) :
    48 ≤ c.toNat ∧ c.toNat ≤ 57 ∨ 65 ≤ c.toNat ∧ c.toNat ≤ 70 ∨ 97 ≤ c.toNat ∧ c.toNat ≤ 102 := by
  unfold isxdigit digit at h
  simp only [UInt8.le_iff_toNat_le, UInt8.reduceToNat] at h
  split_ifs at h <;> simp at h <;> omega

theorem skipPrefix_eq (h : s.tail.headD 0 ≠ 120 ∧ s.tail.headD 0 ≠ 88) : skipPrefix base s = s := by
  unfold skipPrefix
  split
  · rw [if_neg]
    rintro ⟨-, hx, -⟩
    exact hx.elim h.1 h.2
  · rfl

theorem strtol_cons (hspace : isspace c = false) (hminus : c ≠ 45) (hplus : c ≠ 43)
    (hskip : skipPrefix base (c :: s) = c :: s) :
    strtol (c :: s) base = min (2 ^ 63 - 1) (digits base 0 (c :: s) : Int) := by
  have hdrop : (c :: s).dropWhile isspace = c :: s := by simp [hspace]
  unfold strtol
  rw [hdrop]
  split
  · rename_i heq
    exact absurd (List.cons.inj heq).1 hminus
  · rename_i heq
    exact absurd (List.cons.inj heq).1 hplus
  · rw [hskip]

theorem digits_before (h : ∀ c ∈ s, (digit c).any (· < base) = true) (ht : (digit (t.headD 0)).any (· < base) = false) :
    digits base acc (s ++ t) = digits base acc s := by
  rw [digits_append h]
  cases t with
  | nil => rfl
  | cons d t => exact digits_stop ht

theorem not_isspace (h : 13 < c.toNat) (hne : c ≠ 32) : isspace c = false := by
  have hgt : ¬ c ≤ 13 := by
    simp only [UInt8.le_iff_toNat_le, UInt8.reduceToNat]
    omega
  simp [isspace, hne, hgt]

/-- `strtol` reads hexadecimal digits up to the first other byte. -/
theorem strtol_hex (hs : s ≠ []) (h : ∀ c ∈ s, isxdigit c = true) (ht : isxdigit (t.headD 0) = false)
    (hx : t.headD 0 ≠ 120 ∧ t.headD 0 ≠ 88) : strtol (s ++ t) 16 = min (2 ^ 63 - 1) (digits 16 0 s : Int) := by
  obtain ⟨c, s, rfl⟩ := List.exists_cons_of_ne_nil hs
  have hc := isxdigit_bounds (h c List.mem_cons_self)
  have hne : ∀ d : UInt8, d = 32 ∨ d = 45 ∨ d = 43 → c ≠ d := by
    rintro d (rfl | rfl | rfl) rfl <;> simp at hc
  have hskip : skipPrefix 16 (c :: s ++ t) = c :: s ++ t := by
    refine skipPrefix_eq ?_
    cases s with
    | nil => exact hx
    | cons d s =>
      have hd := isxdigit_bounds (h d (by simp))
      constructor <;>
      · intro heq
        obtain rfl : d = _ := heq
        simp at hd
  rw [← digits_before h ht]
  exact strtol_cons (not_isspace (by omega) (hne 32 (.inl rfl))) (hne 45 (.inr (.inl rfl))) (hne 43 (.inr (.inr rfl))) hskip

/-- `strtol` reads decimal digits up to the first other byte. -/
theorem strtol_decimal (hs : s ≠ []) (h : ∀ c ∈ s, 48 ≤ c.toNat ∧ c.toNat ≤ 57)
    (ht : (t.headD 0).toNat < 48 ∨ 57 < (t.headD 0).toNat) : strtol (s ++ t) 10 = min (2 ^ 63 - 1) (digits 10 0 s : Int) := by
  obtain ⟨c, s, rfl⟩ := List.exists_cons_of_ne_nil hs
  have hc := h c List.mem_cons_self
  have hne : ∀ d : UInt8, d = 32 ∨ d = 45 ∨ d = 43 → c ≠ d := by
    rintro d (rfl | rfl | rfl) rfl <;> simp at hc
  have hdigit : ∀ d ∈ c :: s, (digit d).any (· < 10) = true := by
    intro d hd
    have hd := h d hd
    have hvalue : digit d = some (d.toNat - 48) := by
      rw [digit, if_pos]
      simpa only [UInt8.le_iff_toNat_le, UInt8.reduceToNat] using hd
    rw [hvalue]
    simp only [Option.any_some, decide_eq_true_eq]
    omega
  have hstop : (digit (t.headD 0)).any (· < 10) = false := by
    generalize t.headD 0 = d at ht
    unfold digit
    simp only [UInt8.le_iff_toNat_le, UInt8.reduceToNat]
    split_ifs <;> simp <;> omega
  have hskip : skipPrefix 10 (c :: s ++ t) = c :: s ++ t := by
    unfold skipPrefix
    split
    · rename_i heq
      simp [heq]
    · rfl
  rw [← digits_before hdigit hstop]
  exact strtol_cons (not_isspace (by omega) (hne 32 (.inl rfl))) (hne 45 (.inr (.inl rfl))) (hne 43 (.inr (.inr rfl))) hskip

end Lib.CString
