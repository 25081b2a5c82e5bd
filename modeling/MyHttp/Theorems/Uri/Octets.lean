import MyHttp.Theorems.Uri.Texts

/-! IPv4 addresses: the octets, one byte after the other, and the dots between them. -/

namespace MyHttp
namespace Uri

open Lib.CString Lib.Scan UriParser

variable {w d t : Bytes} {n k : Nat} {c : UInt8}

/-- What has been read of an octet. -/
inductive Octet where
  | start
  /-- the byte 2 -/
  | control
  | controlDigit
  /-- nothing more can come -/
  | full
  | one
  /-- another digit can come -/
  | more
  | two
  | twoFive
deriving DecidableEq, Repr

namespace Octet

def next : Octet → UInt8 → Option Octet
  | .start, c =>
    if (byte 2).has c then some .control
    else if (byte 48).has c then some .full
    else if (byte 49).has c then some .one
    else if (byte 50).has c then some .two
    else if digit.has c then some .more
    else none
  | .control, c => if upTo4.has c then some .controlDigit else none
  | .controlDigit, c => if digit.has c then some .full else none
  | .full, _ => none
  | .one, c => if digit.has c then some .more else none
  | .more, c => if digit.has c then some .full else none
  | .two, c => if (byte 53).has c then some .twoFive else if digit.has c then some .full else none
  | .twoFive, c => if upTo5.has c then some .full else none

def complete : Octet → Bool
  | .start | .control | .controlDigit => false
  | _ => true

/-- The rest of an octet. -/
def reads (o : Octet) (w : Bytes) : Bool := (w.foldlM next o).any complete

variable {o : Octet}

theorem reads_nil : o.reads [] = o.complete := rfl

theorem reads_cons : o.reads (c :: w) = (o.next c).any (·.reads w) := by
  rw [reads, List.foldlM_cons]
  cases o.next c <;> rfl

theorem reads_full : full.reads w = decide (w = []) := by
  cases w <;> rfl

theorem reads_more : more.reads w = match w with
    | [] => true
    | [b] => digit.has b
    | _ => false := by
  rcases w with _ | ⟨b, _ | ⟨c, w⟩⟩
  · rfl
  · by_cases hb : digit.has b = true <;> simp [reads_cons, next, hb, reads_nil, complete]
  · by_cases hb : digit.has b = true <;> simp [reads_cons, next, hb]

theorem reads_one : one.reads w = match w with
    | [] => true
    | b :: w => digit.has b && more.reads w := by
  rcases w with _ | ⟨b, w⟩
  · rfl
  · by_cases hb : digit.has b = true <;> simp [reads_cons, next, hb]

theorem reads_control : control.reads w = match w with
    | [b, c] => upTo4.has b && digit.has c
    | _ => false := by
  rcases w with _ | ⟨b, _ | ⟨c, _ | ⟨d, w⟩⟩⟩
  · rfl
  · by_cases hb : upTo4.has b = true <;> simp [reads_cons, next, hb, reads_nil, complete]
  · by_cases hb : upTo4.has b = true <;> by_cases hc : digit.has c = true <;>
      simp [reads_cons, next, hb, hc, reads_nil, complete]
  · by_cases hb : upTo4.has b = true <;> by_cases hc : digit.has c = true <;> simp [reads_cons, next, hb, hc]

theorem has_five : (byte 53).has c = decide (c = 53) := byte_has (b := 53)

theorem reads_two : two.reads w = match w with
    | [] => true
    | [b] => digit.has b
    | [b, c] => b = 53 && upTo5.has c
    | _ => false := by
  have h53 : digit.has 53 = true := by decide
  rcases w with _ | ⟨b, w⟩
  · rfl
  · by_cases hb : b = 53
    · subst hb
      rcases w with _ | ⟨c, w⟩
      · simp [reads_cons, next, has_five, reads_nil, complete, h53]
      · by_cases hc : upTo5.has c = true
        · cases w <;> simp [reads_cons, next, has_five, hc, reads_nil, complete]
        · cases w <;> simp [reads_cons, next, has_five, hc]
    · by_cases hd : digit.has b = true
      · rcases w with _ | ⟨c, _ | ⟨d, w⟩⟩ <;> simp [reads_cons, next, has_five, hb, hd, reads_nil, complete]
      · rcases w with _ | ⟨c, _ | ⟨d, w⟩⟩ <;> simp [reads_cons, next, has_five, hb, hd]

/-- The first byte of an octet. -/
theorem next_start : next .start c =
    if c = 2 then some .control
    else if c = 48 then some .full
    else if c = 49 then some .one
    else if c = 50 then some .two
    else if digit.has c then some .more
    else none := by
  have h2 : (byte 2).has c = decide (c = 2) := byte_has (b := 2)
  have h48 : (byte 48).has c = decide (c = 48) := byte_has (b := 48)
  have h49 : (byte 49).has c = decide (c = 49) := byte_has (b := 49)
  have h50 : (byte 50).has c = decide (c = 50) := byte_has (b := 50)
  simp only [next, h2, h48, h49, h50, decide_eq_true_eq]

theorem decOctet_eq_reads : decOctet w = start.reads w := by
  have hdigits : digit.has 2 = false ∧ digit.has 48 = true ∧ digit.has 49 = true ∧ digit.has 50 = true := by decide
  obtain ⟨h2, h48, h49, h50⟩ := hdigits
  rcases w with _ | ⟨a, w⟩
  · rfl
  · rw [reads_cons, next_start]
    by_cases ha : a = 2
    · subst ha
      rcases w with _ | ⟨b, _ | ⟨c, _ | ⟨d, w⟩⟩⟩ <;> simp [decOctet, reads_control, h2]
    by_cases ha₀ : a = 48
    · subst ha₀
      rcases w with _ | ⟨b, _ | ⟨c, _ | ⟨d, w⟩⟩⟩ <;> simp [decOctet, reads_full, h48]
    by_cases ha₁ : a = 49
    · subst ha₁
      rcases w with _ | ⟨b, _ | ⟨c, _ | ⟨d, w⟩⟩⟩ <;> simp [decOctet, reads_one, reads_more, h49]
    by_cases ha₂ : a = 50
    · subst ha₂
      rcases w with _ | ⟨b, _ | ⟨c, _ | ⟨d, w⟩⟩⟩ <;> simp [decOctet, reads_two, h50]
    by_cases hd : digit.has a = true
    · rcases w with _ | ⟨b, _ | ⟨c, _ | ⟨d, w⟩⟩⟩ <;> simp [decOctet, reads_more, ha, ha₀, ha₁, ha₂, hd]
    · rcases w with _ | ⟨b, _ | ⟨c, _ | ⟨d, w⟩⟩⟩ <;> simp [decOctet, ha, ha₀, ha₁, ha₂, hd]

theorem next_alike {c d : UInt8} (h : Alike classes c d) : o.next c = o.next d := by
  cases o <;> simp only [next, h (byte 2) (by decide), h (byte 48) (by decide), h (byte 49) (by decide),
    h (byte 50) (by decide), h (byte 53) (by decide), h digit (by decide), h upTo4 (by decide), h upTo5 (by decide)]

/-- Octets have no dots in them. -/
theorem next_dot : o.next 46 = none := by
  cases o <;> rfl

end Octet

/-! ### Dots -/

/-- How many dots have been read, and what of the octet behind them. -/
def quadNext (q : Nat × Octet) (c : UInt8) : Option (Nat × Octet) :=
  if (byte 46).has c then if q.2.complete = true ∧ q.1 < 3 then some (q.1 + 1, .start) else none
  else (q.2.next c).map (q.1, ·)

theorem quadNext_alike {q : Nat × Octet} {c d : UInt8} (h : Alike classes c d) : quadNext q c = quadNext q d := by
  simp only [quadNext, h (byte 46) (by decide), Octet.next_alike h]

theorem has_dot : (byte 46).has c = decide (c = 46) := byte_has (b := 46)

theorem quad_octet {o : Octet} (hw : ∀ c ∈ w, outside (ascii ".") c = true) :
    w.foldlM quadNext (k, o) = (w.foldlM Octet.next o).map (k, ·) := by
  induction w generalizing o with
  | nil => rfl
  | cons c w ih =>
    have hc : c ≠ 46 := by simpa [outside, ascii] using hw c List.mem_cons_self
    rw [List.foldlM_cons, List.foldlM_cons, quadNext, has_dot, decide_eq_false hc, if_neg Bool.false_ne_true]
    cases o.next c with
    | none => rfl
    | some o => exact ih fun d hd => hw d (List.mem_cons_of_mem _ hd)

/-- Behind three dots and a complete octet. -/
def quadDone (q : Nat × Octet) : Bool := q.1 = 3 && q.2.complete

/-- Behind the last dot there is one octet only. -/
theorem quad_last {o : Octet} : w.foldlM quadNext (3, o) = (w.foldlM Octet.next o).map (3, ·) := by
  induction w generalizing o with
  | nil => rfl
  | cons c w ih =>
    rw [List.foldlM_cons, List.foldlM_cons, quadNext, has_dot]
    by_cases hc : c = 46
    · subst hc
      simp [Octet.next_dot]
    · rw [decide_eq_false hc, if_neg Bool.false_ne_true]
      cases o.next c with
      | none => rfl
      | some o => exact ih

theorem octets_eq_reads (hk : n + k = 3) : octets n w = (w.foldlM quadNext (k, .start)).any quadDone := by
  induction n generalizing k w with
  | zero =>
    obtain rfl : k = 3 := by omega
    rw [octets, Octet.decOctet_eq_reads, Octet.reads, quad_last, Option.any_map]
    rfl
  | succ n ih =>
    obtain ⟨g, hg⟩ : ∃ g, (cut (ascii ".") w).1 = g := ⟨_, rfl⟩
    obtain ⟨rest, hrest⟩ : ∃ rest, (cut (ascii ".") w).2 = rest := ⟨_, rfl⟩
    have happend : g ++ rest = w := by rw [← hg, ← hrest]; exact cut_append
    have hfirst := quad_octet (w := g) (k := k) (o := .start) fun c hc => outside_cut (hg ▸ hc)
    rw [octets, hg, hrest, ← happend, List.foldlM_append, hfirst, Octet.decOctet_eq_reads, Octet.reads]
    rcases g.foldlM Octet.next .start with _ | o
    · rfl
    · have hbehind : Behind (ascii ".") (cut (ascii ".") w).2 := cut_rest
      rcases hbehind with hnil | ⟨c, t, hcons, hc⟩
      · rw [hrest] at hnil
        subst hnil
        have hk : k ≠ 3 := by omega
        simp [quadDone, hk]
      · rw [hrest] at hcons
        have hc : c = 46 := List.mem_singleton.mp hc
        subst hc hcons
        have hlt : k < 3 := by omega
        by_cases ho : o.complete = true
        · have hnext : quadNext (k, o) 46 = some (k + 1, .start) := by simp [quadNext, has_dot, ho, hlt]
          simp only [Option.map_some, Option.bind_eq_bind, Option.bind_some, List.foldlM_cons, hnext, Option.any_some, ho,
            List.head?_cons, List.tail_cons, decide_true, Bool.true_and]
          exact ih (k := k + 1) (by omega)
        · have hnext : quadNext (k, o) 46 = none := by simp [quadNext, has_dot, ho]
          simp [List.foldlM_cons, hnext, ho]

theorem ipv4Address_iff_run : ipv4Address w = true ↔ ∃ q, w.foldlM quadNext (0, .start) = some q ∧ quadDone q = true := by
  rw [ipv4Address, octets_eq_reads (k := 0) rfl, Option.any_eq_true]

end Uri
end MyHttp
