import MyHttp.Theorems.Uri.Octets

/-! What is in brackets, one byte after the other: the groups of an IPv6 address, with how many of them may follow, and
    addresses of other versions. -/

namespace MyHttp
namespace Uri

open Lib.CString Lib.Scan UriParser

variable {w g d t : Bytes} {n j : Nat} {c : UInt8}

/-! ### Places in an address -/

/-- How many groups may follow from the beginning of one on, of which an `IPv4address` is two; at the front there may also
    be a `::`. -/
structure Slot where
  front : Bool
  least : Nat
  most : Nat
deriving DecidableEq, Repr

/-- How many bytes of a group have been read, and what of an `IPv4address`. -/
abbrev Group := Option Nat × Option (Nat × Octet)

def h16Next (j : Nat) (c : UInt8) : Option Nat := if xdigit.has c = true ∧ j < 4 then some (j + 1) else none

def groupNext : Group → UInt8 → Option Group := beside h16Next quadNext

namespace Slot

def start (x : Slot) : Group :=
  (if 0 < x.most then some 0 else none, if x.least ≤ 2 ∧ 2 ≤ x.most then some (0, .start) else none)

def after (x : Slot) : Slot := ⟨x.front, max 1 (x.least - 1), x.most - 1⟩

/-- Behind a `::` that stands here. -/
def doubled (x : Slot) : Slot := ⟨false, x.most - 1, x.most - 1⟩

def done (x : Slot) (g : Group) : Bool :=
  (x.least ≤ 1 && g.1.any (0 < ·)) || g.2.any quadDone || (x.least = 0 && g = x.start)

end Slot

/-- `IPvFuture` is counted by its parts. -/
inductive LiteralPlace where
  | begun
  | lead
  | slot (x : Slot) (g : Group)
  | quad (q : Nat × Octet)
  | future (j : Nat)
deriving DecidableEq

namespace LiteralPlace

def ofGroup (x : Slot) : Group → LiteralPlace
  | (none, some q) => .quad q
  | g => .slot x g

/-- Behind a colon of a `::`: the first of the two at the very start, the second behind a group. -/
def double (x : Slot) : LiteralPlace := if x.most = 8 then .lead else .slot x.doubled x.doubled.start

/-- At a colon, behind so many bytes of a group. -/
def colon (x : Slot) : Nat → Option LiteralPlace
  | 0 => if x.front then some (double x) else none
  | _ + 1 => if 2 ≤ x.most then some (.slot x.after x.after.start) else none

def slotNext (x : Slot) (g : Group) (c : UInt8) : Option LiteralPlace :=
  if (byte 58).has c then g.1.bind (colon x) else (groupNext g c).map (ofGroup x)

def first : Slot := ⟨true, 8, 8⟩

/-- Behind a `::` that stands before all groups. -/
def loose : Slot := ⟨false, 0, 7⟩

def next : LiteralPlace → UInt8 → Option LiteralPlace
  | .begun, c => if (byte 118).has c then some (.future 0) else slotNext first first.start c
  | .lead, c => if (byte 58).has c then some (.slot loose loose.start) else none
  | .slot x g, c => slotNext x g c
  | .quad q, c => (quadNext q c).map .quad
  | .future 0, c => if xdigit.has c then some (.future 1) else none
  | .future 1, c => if xdigit.has c then some (.future 1) else if (byte 46).has c then some (.future 2) else none
  | .future _, c => if userChar.has c then some (.future 3) else none

def complete : LiteralPlace → Bool
  | .slot x g => x.done g
  | .quad q => quadDone q
  | .future j => j = 3
  | _ => false

/-- The rest of what is in the brackets. -/
def reads (q : LiteralPlace) (w : Bytes) : Bool := (w.foldlM next q).any complete

end LiteralPlace

/-! ### Groups -/

open LiteralPlace

variable {x : Slot} {q : Group}

theorem has_colon : (byte 58).has c = decide (c = 58) := byte_has (b := 58)

theorem h16_run (hj : j ≤ 4) :
    w.foldlM h16Next j = if w.all xdigit.has ∧ j + w.length ≤ 4 then some (j + w.length) else none := by
  induction w generalizing j with
  | nil => simp [hj]
  | cons c w ih =>
    rw [List.foldlM_cons, h16Next]
    by_cases hc : xdigit.has c = true
    · by_cases hlt : j < 4
      · have hsum : j + 1 + w.length = j + (c :: w).length := by rw [List.length_cons]; omega
        rw [if_pos ⟨hc, hlt⟩]
        simp only [Option.bind_eq_bind, Option.bind_some, ih hlt, hsum, List.all_cons, hc, Bool.true_and]
      · have hlong : ¬j + (c :: w).length ≤ 4 := by rw [List.length_cons]; omega
        rw [if_neg fun h => hlt h.2, if_neg fun h => hlong h.2]
        rfl
    · rw [if_neg fun h => hc h.1]
      simp [hc]

theorem h16_iff_run : h16 w = true ↔ ∃ j, w.foldlM h16Next 0 = some j ∧ 0 < j := by
  rw [h16_run (Nat.zero_le 4), Nat.zero_add]
  simp only [h16, Bool.and_eq_true, decide_eq_true_eq]
  constructor
  · rintro ⟨⟨hne, hlen⟩, hall⟩
    exact ⟨w.length, if_pos ⟨hall, hlen⟩, List.length_pos_iff.mpr hne⟩
  · rintro ⟨j, hj, hpos⟩
    split_ifs at hj with h
    obtain rfl := Option.some.inj hj
    exact ⟨⟨List.length_pos_iff.mp hpos, h.2⟩, h.1⟩

theorem quadNext_colon {o : Nat × Octet} : quadNext o 58 = none := by
  obtain ⟨k, o⟩ := o
  cases o <;> rfl

theorem start_ne {o : Nat × Octet} : x.start ≠ (none, some o) := by
  unfold Slot.start
  split_ifs
  · exact nofun
  · exact nofun
  · omega
  · exact nofun

theorem ofGroup_start : ofGroup x x.start = .slot x x.start := by
  rcases hstart : x.start with ⟨_ | j, _ | o⟩
  · rfl
  · exact absurd hstart start_ne
  · rfl
  · rfl

theorem ofGroup_next (hc : c ≠ 58) : (ofGroup x q).next c = (groupNext q c).map (ofGroup x) := by
  have hslot : slotNext x q c = (groupNext q c).map (ofGroup x) := by
    rw [slotNext, has_colon, decide_eq_false hc, if_neg Bool.false_ne_true]
  rcases q with ⟨_ | j, _ | o⟩
  · exact hslot
  · have hnext : groupNext (none, some o) c = (quadNext o c).map fun o => (none, some o) := by
      rw [groupNext, beside]
      cases hq : quadNext o c <;> simp [either, hq]
    rw [hnext, Option.map_map]
    rfl
  · exact hslot
  · exact hslot

theorem ofGroup_colon : (ofGroup x q).next 58 = q.1.bind (colon x) := by
  rcases q with ⟨_ | j, _ | o⟩
  · rfl
  · have hnext : (ofGroup x (none, some o)).next 58 = (quadNext o 58).map .quad := rfl
    rw [hnext, quadNext_colon]
    rfl
  · rfl
  · rfl

theorem complete_ofGroup : (ofGroup x q).complete = x.done q := by
  rcases q with ⟨_ | j, _ | o⟩
  · rfl
  · have hstart : decide ((none, some o) = x.start) = false := decide_eq_false fun h => start_ne h.symm
    simp [ofGroup, complete, Slot.done, hstart]
  · rfl
  · rfl

/-- Up to a colon a group is read. -/
theorem run_ofGroup (hw : ∀ c ∈ w, outside (ascii ":") c = true) :
    w.foldlM next (ofGroup x q) = (w.foldlM groupNext q).map (ofGroup x) := by
  induction w generalizing q with
  | nil => rfl
  | cons c w ih =>
    have hc : c ≠ 58 := by simpa [outside, ascii] using hw c List.mem_cons_self
    rw [List.foldlM_cons, List.foldlM_cons, ofGroup_next hc]
    cases groupNext q c with
    | none => rfl
    | some q => exact ih fun d hd => hw d (List.mem_cons_of_mem _ hd)

theorem group_run (hx : 0 < x.most) : w.foldlM groupNext x.start =
    either (w.foldlM h16Next 0) (if x.least ≤ 2 ∧ 2 ≤ x.most then w.foldlM quadNext (0, .start) else none) := by
  rw [groupNext, Slot.start, if_pos hx, foldlM_beside (.inl (Option.some_ne_none _))]
  split_ifs <;> rfl

/-- Where nothing may follow, nothing is read. -/
theorem group_none (hx : x.most = 0) : w.foldlM groupNext x.start = if w = [] then some (none, none) else none := by
  have hstart : x.start = (none, none) := by
    rw [Slot.start, if_neg (by omega), if_neg (by omega)]
  rw [hstart]
  cases w <;> rfl

theorem h16_zero : w.foldlM h16Next 0 = some 0 ↔ w = [] := by
  rw [h16_run (Nat.zero_le 4)]
  constructor
  · intro h
    split_ifs at h
    have hlen := Option.some.inj h
    exact List.length_eq_zero_iff.mp (by omega)
  · rintro rfl
    rfl

theorem slot_reads : (LiteralPlace.slot x x.start).reads w = (w.foldlM next (ofGroup x x.start)).any complete := by
  rw [ofGroup_start, reads]

/-- A text without a colon is the last group, or the last two. -/
theorem reads_last (hw : ∀ c ∈ w, outside (ascii ":") c = true) : (LiteralPlace.slot x x.start).reads w = true ↔
    (x.least ≤ 1 ∧ 1 ≤ x.most ∧ h16 w = true) ∨ (x.least ≤ 2 ∧ 2 ≤ x.most ∧ ipv4Address w = true) ∨
      (x.least = 0 ∧ w = []) := by
  have hdone : (LiteralPlace.slot x x.start).reads w = (w.foldlM groupNext x.start).any x.done := by
    rw [slot_reads, run_ofGroup hw, Option.any_map]
    exact congrArg (fun f => Option.any f _) (funext fun q => complete_ofGroup)
  rw [hdone]
  by_cases hx : x.most = 0
  · rw [group_none hx]
    by_cases hnil : w = []
    · have hstart : x.start = (none, none) := by
        have h := group_none (w := []) hx
        rw [if_pos rfl] at h
        exact Option.some.inj h
      simp [hnil, hx, Slot.done, hstart]
    · simp [hnil, hx]
  · have hpos : 0 < x.most := Nat.pos_of_ne_zero hx
    have hstart : ∀ q, w.foldlM groupNext x.start = some q → (q = x.start ↔ w = []) := by
      intro q hq
      constructor
      · rintro rfl
        rw [group_run hpos] at hq
        obtain ⟨-, hq⟩ := either_eq_some.mp hq
        have hzero : x.start.1 = some 0 := if_pos hpos
        rw [hq] at hzero
        exact h16_zero.mp hzero
      · rintro rfl
        exact (Option.some.inj hq).symm
    have hany : (w.foldlM groupNext x.start).any x.done = true ↔
        ∃ q, w.foldlM groupNext x.start = some q ∧ x.done q = true := Option.any_eq_true _ _
    rw [hany, h16_iff_run, ipv4Address_iff_run]
    constructor
    · rintro ⟨q, hq, hdone⟩
      have hnil := hstart q hq
      rw [group_run hpos] at hq
      obtain ⟨-, rfl⟩ := either_eq_some.mp hq
      rw [Slot.done, Bool.or_eq_true_iff, Bool.or_eq_true_iff] at hdone
      rcases hdone with (hlast | hquad) | hempty
      · rw [Bool.and_eq_true, decide_eq_true_eq, Option.any_eq_true] at hlast
        obtain ⟨hleast, j, hj, hlt⟩ := hlast
        exact .inl ⟨hleast, hpos, j, hj, of_decide_eq_true hlt⟩
      · obtain ⟨o, ho, hdone⟩ := (Option.any_eq_true _ _).mp hquad
        dsimp only at ho
        split_ifs at ho with htwo
        exact .inr (.inl ⟨htwo.1, htwo.2, o, ho, hdone⟩)
      · rw [Bool.and_eq_true, decide_eq_true_eq, decide_eq_true_eq] at hempty
        exact .inr (.inr ⟨hempty.1, hnil.mp hempty.2⟩)
    · rintro (⟨hleast, -, j, hj, hlt⟩ | ⟨hleast, hmost, o, ho, hdone⟩ | ⟨hleast, hnil⟩)
      · refine ⟨_, (group_run hpos).trans (either_eq_some.mpr ⟨.inl (hj ▸ Option.some_ne_none j), rfl⟩), ?_⟩
        simp [Slot.done, hj, hleast, hlt]
      · refine ⟨_, (group_run hpos).trans (either_eq_some.mpr ⟨.inr ?_, rfl⟩), ?_⟩
        · rw [if_pos ⟨hleast, hmost⟩, ho]
          exact Option.some_ne_none o
        · simp [Slot.done, hleast, hmost, ho, hdone]
      · subst hnil
        exact ⟨x.start, rfl, by simp [Slot.done, hleast]⟩

/-- What comes behind the first colon. -/
theorem reads_colon (hw : ∀ c ∈ w, outside (ascii ":") c = true) : (LiteralPlace.slot x x.start).reads (w ++ 58 :: t) = true ↔
    (h16 w = true ∧ 2 ≤ x.most ∧ (LiteralPlace.slot x.after x.after.start).reads t = true) ∨
      (w = [] ∧ x.front = true ∧ 1 ≤ x.most ∧ (double x).reads t = true) := by
  have hrun : (w ++ 58 :: t).foldlM next (ofGroup x x.start) =
      ((w.foldlM groupNext x.start).bind fun q => q.1.bind (colon x)).bind fun q => t.foldlM next q := by
    rw [List.foldlM_append, run_ofGroup hw]
    cases w.foldlM groupNext x.start with
    | none => rfl
    | some q =>
      have hcolon := ofGroup_colon (x := x) (q := q)
      simp only [Option.map_some, Option.bind_eq_bind, Option.bind_some, List.foldlM_cons, hcolon]
  have hfirst : ((w.foldlM groupNext x.start).bind fun q => q.1.bind (colon x)) =
      if 0 < x.most then (w.foldlM h16Next 0).bind (colon x) else none := by
    by_cases hx : x.most = 0
    · have hzero : ¬0 < x.most := by omega
      rw [group_none hx, if_neg hzero]
      split_ifs <;> rfl
    · have hpos : 0 < x.most := Nat.pos_of_ne_zero hx
      rw [group_run hpos, if_pos hpos]
      cases w.foldlM h16Next 0 with
      | some j => rfl
      | none =>
        rcases (if x.least ≤ 2 ∧ 2 ≤ x.most then w.foldlM quadNext (0, .start) else none) with _ | o <;> rfl
  rw [slot_reads, hrun, hfirst]
  by_cases hx : 0 < x.most
  · rw [if_pos hx]
    by_cases hnil : w = []
    · subst hnil
      by_cases hfront : x.front = true
      · have hcolon : colon x 0 = some (double x) := if_pos hfront
        simp [hcolon, hfront, reads, h16, Nat.one_le_iff_ne_zero, Nat.pos_iff_ne_zero.mp hx]
      · have hcolon : colon x 0 = none := if_neg hfront
        simp [hcolon, hfront, h16]
    · by_cases hh16 : h16 w = true
      · obtain ⟨j, hj, hlt⟩ := h16_iff_run.mp hh16
        obtain ⟨j, rfl⟩ := Nat.exists_eq_succ_of_ne_zero (Nat.pos_iff_ne_zero.mp hlt)
        have hcolon : colon x (j + 1) = if 2 ≤ x.most then some (.slot x.after x.after.start) else none := rfl
        rw [hj, Option.bind_some, hcolon]
        by_cases hmost : 2 ≤ x.most
        · simp [hmost, hnil, hh16, reads]
        · simp [hmost, hnil]
      · have hnone : w.foldlM h16Next 0 = none := by
          rcases hj : w.foldlM h16Next 0 with _ | j
          · rfl
          · rcases Nat.eq_zero_or_pos j with rfl | hlt
            · exact absurd (h16_zero.mp hj) hnil
            · exact absurd (h16_iff_run.mpr ⟨j, hj, hlt⟩) hh16
        simp [hnone, hnil, hh16]
  · rw [if_neg hx]
    have hmost : ¬2 ≤ x.most := by omega
    have hone : ¬1 ≤ x.most := hx
    simp [hmost, hone]

/-! ### IPv6 addresses -/

theorem cut_colon (hw : ∀ c ∈ w, outside (ascii ":") c = true) : cut (ascii ":") (w ++ 58 :: t) = (w, 58 :: t) :=
  cut_eq hw (.inr ⟨58, t, rfl, by decide⟩)

theorem cut_whole (hw : ∀ c ∈ w, outside (ascii ":") c = true) : cut (ascii ":") w = (w, []) := by
  have h : cut (ascii ":") (w ++ []) = (w, []) := cut_eq hw (.inl rfl)
  rwa [List.append_nil] at h

/-- A text ends before its first colon, or goes on behind it. -/
theorem colon_cases (w : Bytes) : (∀ c ∈ w, outside (ascii ":") c = true) ∨
    ∃ g t, w = g ++ 58 :: t ∧ ∀ c ∈ g, outside (ascii ":") c = true := by
  have hbehind : Behind (ascii ":") (cut (ascii ":") w).2 := cut_rest
  have happend : (cut (ascii ":") w).1 ++ (cut (ascii ":") w).2 = w := cut_append
  have hfree : ∀ c ∈ (cut (ascii ":") w).1, outside (ascii ":") c = true := fun c hc => outside_cut hc
  rcases hbehind with hnil | ⟨c, t, hcons, hc⟩
  · rw [hnil, List.append_nil] at happend
    exact .inl (happend ▸ hfree)
  · have hc : c = 58 := List.mem_singleton.mp hc
    subst hc
    rw [hcons] at happend
    exact .inr ⟨_, t, happend.symm, hfree⟩

theorem units_last (hw : ∀ c ∈ w, outside (ascii ":") c = true) : units n w = true ↔
    (n = 1 ∧ h16 w = true) ∨ (n = 2 ∧ ipv4Address w = true) ∨ (n = 0 ∧ w = []) := by
  cases n with
  | zero => simp [units]
  | succ n => simp [units, cut_whole hw]

theorem units_colon (hw : ∀ c ∈ w, outside (ascii ":") c = true) :
    units n (w ++ 58 :: t) = true ↔ h16 w = true ∧ 2 ≤ n ∧ units (n - 1) t = true := by
  cases n with
  | zero => simp [units]
  | succ n =>
    simp only [units, cut_colon hw, if_neg (List.cons_ne_nil _ _), List.tail_cons, Nat.add_sub_cancel, Bool.and_eq_true,
      decide_eq_true_eq]
    constructor
    · rintro ⟨⟨hn, hh16⟩, ht⟩
      exact ⟨hh16, by omega, ht⟩
    · rintro ⟨hh16, hn, ht⟩
      exact ⟨⟨by omega, hh16⟩, ht⟩

/-- Behind a `::` as many groups follow as may. -/
theorem reads_closed (hx : x.front = false) :
    (LiteralPlace.slot x x.start).reads w = true ↔ ∃ m, x.least ≤ m ∧ m ≤ x.most ∧ units m w = true := by
  induction hn : x.most generalizing x w with
  | zero =>
    rcases colon_cases w with hw | ⟨g, t, rfl, hg⟩
    · rw [reads_last hw, hn]
      simp [units]
    · rw [reads_colon hg, hn, hx]
      simp [units]
  | succ n ih =>
    rcases colon_cases w with hw | ⟨g, t, rfl, hg⟩
    · rw [reads_last hw, hn]
      constructor
      · rintro (⟨hleast, hmost, h⟩ | ⟨hleast, hmost, h⟩ | ⟨hleast, h⟩)
        · exact ⟨1, hleast, hmost, (units_last hw).mpr (.inl ⟨rfl, h⟩)⟩
        · exact ⟨2, hleast, hmost, (units_last hw).mpr (.inr (.inl ⟨rfl, h⟩))⟩
        · exact ⟨0, by omega, Nat.zero_le _, (units_last hw).mpr (.inr (.inr ⟨rfl, h⟩))⟩
      · rintro ⟨m, hleast, hmost, h⟩
        rcases (units_last hw).mp h with ⟨rfl, hlast⟩ | ⟨rfl, hlast⟩ | ⟨rfl, hlast⟩
        · exact .inl ⟨hleast, hmost, hlast⟩
        · exact .inr (.inl ⟨hleast, hmost, hlast⟩)
        · exact .inr (.inr ⟨by omega, hlast⟩)
    · have hafter : x.after.most = n := by rw [Slot.after, hn]; rfl
      rw [reads_colon hg, hn, hx, ih (x := x.after) hx hafter]
      constructor
      · rintro (⟨hh16, hmost, m, hleast, hle, h⟩ | ⟨-, hfront, -⟩)
        · simp only [Slot.after, Nat.max_le] at hleast
          exact ⟨m + 1, by omega, by omega, (units_colon hg).mpr ⟨hh16, by omega, h⟩⟩
        · cases hfront
      · rintro ⟨m, hleast, hle, h⟩
        obtain ⟨hh16, hm, h⟩ := (units_colon hg).mp h
        refine .inl ⟨hh16, by omega, m - 1, ?_, by omega, h⟩
        simp only [Slot.after, Nat.max_le]
        omega

theorem groups_last (hw : ∀ c ∈ w, outside (ascii ":") c = true) : groups n w = true ↔
    (n = 1 ∧ h16 w = true) ∨ (n = 0 ∧ w = []) := by
  cases n with
  | zero => simp [groups]
  | succ n => simp [groups, cut_whole hw, and_comm]

theorem groups_colon (hw : ∀ c ∈ w, outside (ascii ":") c = true) :
    groups n (w ++ 58 :: t) = true ↔ h16 w = true ∧ 2 ≤ n ∧ groups (n - 1) t = true := by
  cases n with
  | zero => simp [groups]
  | succ n =>
    simp only [groups, cut_colon hw, if_neg (List.cons_ne_nil _ _), List.tail_cons, Nat.add_sub_cancel, Bool.and_eq_true,
      decide_eq_true_eq]
    constructor
    · rintro ⟨hh16, hn, ht⟩
      exact ⟨hh16, by omega, ht⟩
    · rintro ⟨hh16, hn, ht⟩
      exact ⟨hh16, by omega, ht⟩

/-- Groups with a `::` behind them. -/
def Doubled (n : Nat) (w : Bytes) : Prop :=
  ∃ k l r, 1 ≤ k ∧ k < n ∧ w = l ++ ascii "::" ++ r ∧ groups k l = true ∧ units (n - 1 - k) r = true

theorem not_doubled (hw : ∀ c ∈ w, outside (ascii ":") c = true) : ¬Doubled n w := by
  rintro ⟨k, l, r, -, -, rfl, -, -⟩
  have hcolon := hw 58 (by simp [ascii])
  exact absurd hcolon (by decide)

theorem append_colon {l r : Bytes} (hg : ∀ c ∈ g, outside (ascii ":") c = true)
    (hl : ∀ c ∈ l, outside (ascii ":") c = true) (h : g ++ 58 :: t = l ++ 58 :: r) : g = l ∧ t = r := by
  have hcut := congrArg (cut (ascii ":")) h
  rw [cut_colon hg, cut_colon hl] at hcut
  obtain ⟨hfront, hback⟩ := Prod.mk.inj hcut
  exact ⟨hfront, (List.cons.inj hback).2⟩

theorem doubled_colon (hg : ∀ c ∈ g, outside (ascii ":") c = true) : Doubled n (g ++ 58 :: t) ↔
    h16 g = true ∧ 2 ≤ n ∧ ((∃ r, t = 58 :: r ∧ units (n - 2) r = true) ∨ Doubled (n - 1) t) := by
  have hsplit : ∀ l r : Bytes, l ++ ascii "::" ++ r = l ++ 58 :: 58 :: r := fun l r => by simp [ascii]
  constructor
  · rintro ⟨k, l, r, hk, hlt, heq, hgroups, hunits⟩
    rw [hsplit] at heq
    rcases colon_cases l with hl | ⟨g', l, rfl, hg'⟩
    · obtain ⟨rfl, rfl⟩ := append_colon hg hl heq
      rcases (groups_last hl).mp hgroups with ⟨rfl, hh16⟩ | ⟨rfl, -⟩
      · exact ⟨hh16, by omega, .inl ⟨r, rfl, hunits⟩⟩
      · omega
    · rw [List.append_assoc, List.cons_append] at heq
      obtain ⟨rfl, rfl⟩ := append_colon hg hg' heq
      obtain ⟨hh16, htwo, hgroups⟩ := (groups_colon hg).mp hgroups
      have hleft : n - 1 - 1 - (k - 1) = n - 1 - k := by omega
      exact ⟨hh16, by omega, .inr ⟨k - 1, l, r, by omega, by omega, (hsplit l r).symm, hgroups, hleft ▸ hunits⟩⟩
  · rintro ⟨hh16, hn, ⟨r, rfl, hunits⟩ | ⟨k, l, r, hk, hlt, rfl, hgroups, hunits⟩⟩
    · exact ⟨1, g, r, by omega, by omega, (hsplit g r).symm, (groups_last hg).mpr (.inl ⟨rfl, hh16⟩), hunits⟩
    · have hleft : n - 1 - 1 - k = n - 1 - (k + 1) := by omega
      refine ⟨k + 1, g ++ 58 :: l, r, by omega, by omega, ?_, (groups_colon hg).mpr ⟨hh16, by omega, hgroups⟩, hleft ▸ hunits⟩
      simp

/-- Where groups have come and no `::` yet. -/
theorem reads_front (h₀ : 1 ≤ n) (h₁ : n ≤ 7) : (LiteralPlace.slot ⟨true, n, n⟩ (Slot.start ⟨true, n, n⟩)).reads w = true ↔
    units n w = true ∨ (∃ r, w = 58 :: r ∧ units (n - 1) r = true) ∨ Doubled n w := by
  induction n generalizing w with
  | zero => omega
  | succ n ih =>
    rcases colon_cases w with hw | ⟨g, t, rfl, hg⟩
    · rw [reads_last hw, units_last hw]
      have hcolon : ¬∃ r, w = 58 :: r ∧ units (n + 1 - 1) r = true := by
        rintro ⟨r, rfl, -⟩
        exact absurd (hw 58 List.mem_cons_self) (by decide)
      simp only [not_doubled hw, hcolon, or_false]
      constructor
      · rintro (⟨hleast, hmost, h⟩ | ⟨hleast, hmost, h⟩ | ⟨hleast, h⟩)
        · exact .inl ⟨by omega, h⟩
        · exact .inr (.inl ⟨by omega, h⟩)
        · exact .inr (.inr ⟨hleast, h⟩)
      · rintro (⟨hn, h⟩ | ⟨hn, h⟩ | ⟨hn, h⟩)
        · exact .inl ⟨by omega, by omega, h⟩
        · exact .inr (.inl ⟨by omega, by omega, h⟩)
        · exact .inr (.inr ⟨hn, h⟩)
    · have hne : n + 1 ≠ 8 := by omega
      have hdouble : double ⟨true, n + 1, n + 1⟩ = .slot ⟨false, n, n⟩ (Slot.start ⟨false, n, n⟩) := if_neg hne
      have hclosed : (double ⟨true, n + 1, n + 1⟩).reads t = true ↔ units n t = true := by
        rw [hdouble, reads_closed rfl]
        constructor
        · rintro ⟨m, hleast, hmost, h⟩
          obtain rfl : m = n := Nat.le_antisymm hmost hleast
          exact h
        · exact fun h => ⟨n, Nat.le_refl n, Nat.le_refl n, h⟩
      have hempty : (∃ r, g ++ 58 :: t = 58 :: r ∧ units (n + 1 - 1) r = true) ↔ g = [] ∧ units n t = true := by
        constructor
        · rintro ⟨r, heq, h⟩
          obtain ⟨rfl, rfl⟩ := append_colon (l := []) hg (List.forall_mem_nil _) heq
          exact ⟨rfl, h⟩
        · rintro ⟨rfl, h⟩
          exact ⟨t, rfl, h⟩
      rw [reads_colon hg, units_colon hg, doubled_colon hg, hempty, hclosed]
      constructor
      · rintro (⟨hh16, hmost, h⟩ | ⟨hnil, -, -, h⟩)
        · have hn : 1 ≤ n := Nat.le_of_succ_le_succ hmost
          have hafter : Slot.after ⟨true, n + 1, n + 1⟩ = ⟨true, n, n⟩ := by simp [Slot.after, hn]
          rw [hafter] at h
          rcases (ih hn (by omega)).mp h with h | h | h
          · exact .inl ⟨hh16, hmost, h⟩
          · exact .inr (.inr ⟨hh16, hmost, .inl h⟩)
          · exact .inr (.inr ⟨hh16, hmost, .inr h⟩)
        · exact .inr (.inl ⟨hnil, h⟩)
      · have hback : 2 ≤ n + 1 → units n t = true ∨ (∃ r, t = 58 :: r ∧ units (n - 1) r = true) ∨ Doubled n t →
            (LiteralPlace.slot (Slot.after ⟨true, n + 1, n + 1⟩) (Slot.start (Slot.after ⟨true, n + 1, n + 1⟩))).reads t =
              true := by
          intro hmost h
          have hn : 1 ≤ n := Nat.le_of_succ_le_succ hmost
          have hafter : Slot.after ⟨true, n + 1, n + 1⟩ = ⟨true, n, n⟩ := by simp [Slot.after, hn]
          rw [hafter]
          exact (ih hn (by omega)).mpr h
        rintro (⟨hh16, hmost, h⟩ | ⟨hnil, h⟩ | ⟨hh16, hmost, h⟩)
        · exact .inl ⟨hh16, hmost, hback hmost (.inl h)⟩
        · exact .inr ⟨hnil, rfl, by omega, h⟩
        · exact .inl ⟨hh16, hmost, hback hmost (.inr h)⟩

theorem reads_lead : LiteralPlace.lead.reads w = true ↔ ∃ n r, n ≤ 7 ∧ w = 58 :: r ∧ units n r = true := by
  have hclosed : ∀ r, (LiteralPlace.slot loose loose.start).reads r = true ↔ ∃ m, 0 ≤ m ∧ m ≤ 7 ∧ units m r = true :=
    fun r => reads_closed rfl
  cases w with
  | nil => simp [reads, complete]
  | cons c w =>
    by_cases hc : c = 58
    · subst hc
      have hstep : LiteralPlace.lead.reads (58 :: w) = (LiteralPlace.slot loose loose.start).reads w := rfl
      rw [hstep, hclosed]
      constructor
      · rintro ⟨m, -, hm, h⟩
        exact ⟨m, w, hm, rfl, h⟩
      · rintro ⟨m, r, hm, heq, h⟩
        exact ⟨m, Nat.zero_le m, hm, (List.cons.inj heq).2 ▸ h⟩
    · have hnext : LiteralPlace.lead.next c = none := by simp [LiteralPlace.next, has_colon, hc]
      have hstep : LiteralPlace.lead.reads (c :: w) = false := by rw [reads, List.foldlM_cons, hnext]; rfl
      rw [hstep]
      simp [hc]

/-- The machine reads what the grammar says. -/
theorem ipv6Address_iff_reads : ipv6Address w ↔ (LiteralPlace.slot first first.start).reads w = true := by
  have hfront : ∀ t, (LiteralPlace.slot first.after first.after.start).reads t = true ↔
      units 7 t = true ∨ (∃ r, t = 58 :: r ∧ units 6 r = true) ∨ Doubled 7 t :=
    fun t => reads_front (n := 7) (by decide) (by decide)
  have hspec : ipv6Address w ↔ units 8 w = true ∨ (∃ n r, n ≤ 7 ∧ w = ascii "::" ++ r ∧ units n r = true) ∨ Doubled 8 w := by
    have hdoubled : Doubled 8 w ↔
        ∃ n l r, 1 ≤ n ∧ n ≤ 7 ∧ w = l ++ ascii "::" ++ r ∧ groups n l = true ∧ units (7 - n) r = true := by
      simp only [Doubled, Nat.lt_succ_iff, Nat.reduceSub]
    rw [hdoubled]
    rfl
  rw [hspec]
  rcases colon_cases w with hw | ⟨g, t, rfl, hg⟩
  · have hcolon : ¬∃ n r, n ≤ 7 ∧ w = ascii "::" ++ r ∧ units n r = true := by
      rintro ⟨n, r, -, rfl, -⟩
      exact absurd (hw 58 (by simp [ascii])) (by decide)
    rw [reads_last hw, units_last hw]
    simp only [not_doubled hw, hcolon, or_false]
    simp [first]
  · have hempty : (∃ n r, n ≤ 7 ∧ g ++ 58 :: t = ascii "::" ++ r ∧ units n r = true) ↔
        g = [] ∧ LiteralPlace.lead.reads t = true := by
      rw [reads_lead]
      constructor
      · rintro ⟨n, r, hn, heq, h⟩
        obtain ⟨rfl, rfl⟩ := append_colon (l := []) (r := 58 :: r) hg (List.forall_mem_nil _) heq
        exact ⟨rfl, n, r, hn, rfl, h⟩
      · rintro ⟨rfl, n, r, hn, rfl, h⟩
        exact ⟨n, r, hn, rfl, h⟩
    have hdouble : double first = .lead := rfl
    rw [reads_colon hg, units_colon hg, doubled_colon hg, hempty, hdouble, hfront]
    simp only [first, Nat.reduceSub, Nat.reduceLeDiff, true_and]
    constructor
    · rintro (⟨hh16, h⟩ | h | ⟨hh16, h⟩)
      · exact .inl ⟨hh16, .inl h⟩
      · exact .inr h
      · exact .inl ⟨hh16, .inr h⟩
    · rintro (⟨hh16, h | h⟩ | h)
      · exact .inl ⟨hh16, h⟩
      · exact .inr (.inr ⟨hh16, h⟩)
      · exact .inr (.inl h)

/-! ### Addresses of other versions -/

variable {q : LiteralPlace}

theorem reads_nil : q.reads [] = q.complete := rfl

theorem reads_cons : q.reads (c :: w) = (q.next c).any (·.reads w) := by
  rw [reads, List.foldlM_cons]
  cases q.next c <;> rfl

theorem reads_chars : (LiteralPlace.future 3).reads w = w.all userChar.has := by
  induction w with
  | nil => rfl
  | cons c w ih =>
    have hnext : (LiteralPlace.future 3).next c = if userChar.has c then some (.future 3) else none := rfl
    rw [reads_cons, hnext, List.all_cons]
    by_cases hc : userChar.has c = true
    · rw [if_pos hc, Option.any_some, ih, hc, Bool.true_and]
    · rw [if_neg hc, Bool.eq_false_iff.mpr hc, Bool.false_and]
      rfl

theorem reads_dot : (LiteralPlace.future 2).reads w = true ↔ w ≠ [] ∧ ∀ c ∈ w, userChar.has c = true := by
  cases w with
  | nil => simp [reads_nil, complete]
  | cons c w =>
    have hnext : (LiteralPlace.future 2).next c = if userChar.has c then some (.future 3) else none := rfl
    rw [reads_cons, hnext]
    by_cases hc : userChar.has c = true
    · simp [hc, reads_chars]
    · simp [hc]

/-- A version and what is behind its dot. -/
theorem reads_version : (LiteralPlace.future 1).reads w = true ↔
    ∃ x y, w = x ++ 46 :: y ∧ (∀ c ∈ x, xdigit.has c = true) ∧ y ≠ [] ∧ ∀ c ∈ y, userChar.has c = true := by
  induction w with
  | nil => simp [reads_nil, complete]
  | cons c w ih =>
    have hnext : (LiteralPlace.future 1).next c =
        if xdigit.has c then some (.future 1) else if (byte 46).has c then some (.future 2) else none := rfl
    rw [reads_cons, hnext]
    by_cases hc : xdigit.has c = true
    · rw [if_pos hc, Option.any_some, ih]
      constructor
      · rintro ⟨x, y, rfl, hx, hne, hy⟩
        exact ⟨c :: x, y, rfl, List.forall_mem_cons.mpr ⟨hc, hx⟩, hne, hy⟩
      · rintro ⟨_ | ⟨c', x⟩, y, heq, hx, hne, hy⟩
        · obtain ⟨rfl, -⟩ := List.cons.inj heq
          exact absurd hc (by decide)
        · obtain ⟨rfl, rfl⟩ := List.cons.inj heq
          exact ⟨x, y, rfl, fun d hd => hx d (List.mem_cons_of_mem _ hd), hne, hy⟩
    · rw [if_neg hc, has_dot]
      by_cases hdot : c = 46
      · subst hdot
        rw [decide_eq_true rfl, if_pos rfl, Option.any_some, reads_dot]
        constructor
        · rintro ⟨hne, hw⟩
          exact ⟨[], w, rfl, List.forall_mem_nil _, hne, hw⟩
        · rintro ⟨_ | ⟨c', x⟩, y, heq, hx, hne, hy⟩
          · obtain ⟨-, rfl⟩ := List.cons.inj heq
            exact ⟨hne, hy⟩
          · obtain ⟨rfl, -⟩ := List.cons.inj heq
            exact absurd (hx _ List.mem_cons_self) hc
      · rw [decide_eq_false hdot, if_neg Bool.false_ne_true, Option.any_none]
        refine iff_of_false Bool.false_ne_true ?_
        rintro ⟨_ | ⟨c', x⟩, y, heq, hx, -, -⟩
        · exact hdot (List.cons.inj heq).1
        · obtain ⟨rfl, -⟩ := List.cons.inj heq
          exact hc (hx _ List.mem_cons_self)

theorem ipvFuture_iff_reads : ipvFuture (118 :: w) ↔ (LiteralPlace.future 0).reads w = true := by
  cases w with
  | nil =>
    refine iff_of_false ?_ (by simp [reads_nil, complete])
    rintro ⟨x, y, heq, -, -, -, -⟩
    simp at heq
  | cons c w =>
    have hnext : (LiteralPlace.future 0).next c = if xdigit.has c then some (.future 1) else none := rfl
    rw [reads_cons, hnext]
    by_cases hc : xdigit.has c = true
    · rw [if_pos hc, Option.any_some, reads_version]
      constructor
      · rintro ⟨_ | ⟨c', x⟩, y, heq, hne, hy, hx, hall⟩
        · exact absurd rfl hne
        · obtain ⟨-, heq⟩ := List.cons.inj heq
          obtain ⟨-, rfl⟩ := List.cons.inj heq
          exact ⟨x, y, rfl, fun d hd => hx d (List.mem_cons_of_mem _ hd), hy, hall⟩
      · rintro ⟨x, y, rfl, hx, hne, hy⟩
        exact ⟨c :: x, y, rfl, List.cons_ne_nil _ _, hne, List.forall_mem_cons.mpr ⟨hc, hx⟩, hy⟩
    · rw [if_neg hc, Option.any_none]
      refine iff_of_false ?_ Bool.false_ne_true
      rintro ⟨_ | ⟨c', x⟩, y, heq, hne, -, hx, -⟩
      · exact hne rfl
      · obtain ⟨-, heq⟩ := List.cons.inj heq
        obtain ⟨rfl, -⟩ := List.cons.inj heq
        exact hc (hx _ List.mem_cons_self)

/-- What may be in brackets. -/
theorem literal_iff_reads : ipv6Address w ∨ ipvFuture w ↔ LiteralPlace.begun.reads w = true := by
  rw [ipv6Address_iff_reads]
  cases w with
  | nil =>
    refine iff_of_false ?_ (by simp [reads_nil, complete])
    rintro (h | ⟨x, y, heq, -, -, -, -⟩)
    · exact absurd h (by decide)
    · cases heq
  | cons c w =>
    have hnext : LiteralPlace.begun.next c =
        if (byte 118).has c then some (.future 0) else slotNext first first.start c := rfl
    have hv : (byte 118).has c = decide (c = 118) := byte_has (b := 118)
    have hslot : (LiteralPlace.slot first first.start).next c = slotNext first first.start c := rfl
    rw [reads_cons, reads_cons, hnext, hslot, hv]
    by_cases hc : c = 118
    · subst hc
      have hnone : slotNext first first.start 118 = none := by decide
      rw [decide_eq_true rfl, if_pos rfl, Option.any_some, ← ipvFuture_iff_reads, hnone, Option.any_none]
      simp
    · rw [decide_eq_false hc, if_neg Bool.false_ne_true, or_iff_left]
      rintro ⟨x, y, heq, -, -, -, -⟩
      exact hc (List.cons.inj heq).1

end Uri
end MyHttp
