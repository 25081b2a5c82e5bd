import MyHttp.Theorems.TimerSet
import Mathlib.Data.List.Perm.Subperm

/-! Which timers `listExpiredCb` takes. `getNextTimer` and the early return compare due times, and the cut is made behind
    a probe in the order of due times and addresses: of the timers due at this very moment it takes those that have
    an address below the probe's. -/

namespace MyHttp
namespace TimerObjects

open Lib Lib.Run Lib.Machine

variable {Cb : Type} {s t : TimerObjects Cb} {a b now probe : Nat} {o : TimerObject Cb} {out : List Nat}

/-! ### A set in order -/

/-- The set is in order, whatever callbacks its timers have. -/
def Ordered (s : TimerObjects Cb) : Prop := s.timers.Pairwise (before s.object)

theorem Ordered.nodup (h : s.Ordered) : s.timers.Nodup := OrderedSet.nodup_of_sorted h

/-- An object outside the set may be changed. -/
theorem Ordered.set (h : s.Ordered) (ha : a ∉ s.timers) : (s.set a o).Ordered := pairwise_set h ha

theorem Ordered.insert (h : s.Ordered) (ha : a ∉ s.timers) :
    (s.insert a).Ordered ∧ ∀ b, b ∈ (s.insert a).timers ↔ b = a ∨ b ∈ s.timers := by
  obtain ⟨hsorted, hperm, -⟩ := OrderedSet.insert_new h fun b hb =>
    before_total s.object (show a ≠ b from fun e => ha (e ▸ hb))
  exact ⟨hsorted, fun b => hperm.mem_iff.trans List.mem_cons⟩

/-- The first timer of the set is due before the others. -/
theorem Ordered.head_le (h : s.Ordered) (ha : s.timers.head? = some a) (hb : b ∈ s.timers) :
    (s.object a).next ≤ (s.object b).next := by
  obtain ⟨rest, hrest⟩ := List.head?_eq_some_iff.mp ha
  unfold Ordered at h
  rw [hrest] at h hb
  rcases List.mem_cons.mp hb with rfl | hb
  · exact Nat.le_refl _
  · have hab := (List.pairwise_cons.mp h).1 b hb
    unfold before at hab
    omega

/-! ### The loop over the expired timers -/

/-- What becomes of a timer that expires at `now`. -/
def fired (now : Nat) (o : TimerObject Cb) : TimerObject Cb :=
  if o.recurring then { o with next := wrap64 (now + o.ms) } else { o with cb := none }

theorem rearmOne_object : (rearmOne now s a).object a = fired now (s.object a) := by
  unfold rearmOne fired
  split
  · rw [insert_object, set_object_self]
  · rw [set_object_self]

theorem rearm_object (hnodup : out.Nodup) :
    (rearm now out s).2.object b = if b ∈ out then fired now (s.object b) else s.object b := by
  induction out generalizing s with
  | nil => simp [rearm]
  | cons a out ih =>
    obtain ⟨ha, hnodup⟩ := List.nodup_cons.mp hnodup
    rw [rearm_cons, ih hnodup]
    by_cases hb : b = a
    · subst hb
      rw [if_neg ha, if_pos List.mem_cons_self, rearmOne_object]
    · rw [rearmOne_object_of_ne hb]
      simp [hb]

/-- One turn puts a timer back exactly when it recurs. -/
theorem Ordered.rearmOne (now : Nat) (h : s.Ordered) (ha : a ∉ s.timers) : (rearmOne now s a).Ordered ∧
    ∀ b, b ∈ (rearmOne now s a).timers ↔ b = a ∧ (s.object a).recurring = true ∨ b ∈ s.timers := by
  unfold TimerObjects.rearmOne
  by_cases hrec : (s.object a).recurring = true
  · rw [if_pos hrec]
    obtain ⟨hordered, hmem⟩ := (h.set (o := { s.object a with next := wrap64 (now + (s.object a).ms) }) ha).insert ha
    refine ⟨hordered, fun b => (hmem b).trans ?_⟩
    simp [hrec]
  · rw [if_neg hrec]
    refine ⟨h.set ha, fun b => ?_⟩
    simp [hrec]

theorem Ordered.rearm (now : Nat) (h : s.Ordered) (hout : ∀ a ∈ out, a ∉ s.timers) (hnodup : out.Nodup) :
    (rearm now out s).2.Ordered ∧ ∀ b, b ∈ (rearm now out s).2.timers ↔
      b ∈ out ∧ (s.object b).recurring = true ∨ b ∈ s.timers := by
  induction out generalizing s with
  | nil => exact ⟨h, fun b => by simp [TimerObjects.rearm]⟩
  | cons a out ih =>
    obtain ⟨ha, hnodup⟩ := List.nodup_cons.mp hnodup
    have hne : ∀ b ∈ out, b ≠ a := fun b hb e => ha (e ▸ hb)
    obtain ⟨hone, hmem⟩ := h.rearmOne now (hout a List.mem_cons_self)
    obtain ⟨hordered, hrest⟩ := ih hone (fun b hb hin => by
      rcases (hmem b).mp hin with ⟨rfl, -⟩ | hin
      · exact hne b hb rfl
      · exact hout b (List.mem_cons_of_mem a hb) hin) hnodup
    rw [rearm_cons]
    refine ⟨hordered, fun b => ?_⟩
    rw [hrest, hmem, List.mem_cons]
    by_cases hb : b = a
    · subst hb
      simp [ha]
    · simp [hb, rearmOne_object_of_ne hb]

/-! ### The cut -/

/-- The timers that the cut behind the probe takes. -/
def behindCut (s : TimerObjects Cb) (probe now : Nat) (b : Nat) : Prop :=
  now < (s.object b).next ∨ now = (s.object b).next ∧ probe < b

instance : Decidable (s.behindCut probe now b) := inferInstanceAs (Decidable (_ ∨ _))

theorem before_probe (hb : b ≠ probe) :
    before (s.set probe ⟨false, 0, now, none⟩).object probe b ↔ s.behindCut probe now b := by
  unfold before behindCut
  rw [set_object_self, set_object_of_ne hb]

/-- The timers of the set that the cut leaves in front of it. -/
def taken (s : TimerObjects Cb) (probe now : Nat) : List Nat := s.timers.filter fun b => ¬s.behindCut probe now b

theorem mem_taken : b ∈ s.taken probe now ↔ b ∈ s.timers ∧ ¬s.behindCut probe now b := by
  unfold taken
  rw [List.mem_filter, decide_eq_true_iff]

/-- The cut behind the probe splits the set into these timers and the others. -/
theorem Ordered.split_probe (now : Nat) (h : s.Ordered) (hprobe : probe ∉ s.timers) :
    s.timers.take (OrderedSet.upperBound (before (s.set probe ⟨false, 0, now, none⟩).object) s.timers probe) =
      s.taken probe now ∧
    s.timers.drop (OrderedSet.upperBound (before (s.set probe ⟨false, 0, now, none⟩).object) s.timers probe) =
      s.timers.filter fun b => s.behindCut probe now b := by
  have hne : ∀ b ∈ s.timers, b ≠ probe := fun b hb e => hprobe (e ▸ hb)
  have hsplit := OrderedSet.split_upperBound (h.set (o := ⟨false, 0, now, none⟩) hprobe) probe
  rw [set_timers] at hsplit
  have htake : s.timers.filter (fun b => ¬before (s.set probe ⟨false, 0, now, none⟩).object probe b) =
      s.taken probe now :=
    List.filter_congr fun b hb => decide_eq_decide.mpr (not_congr (before_probe (hne b hb)))
  have hdrop : s.timers.filter (fun b => before (s.set probe ⟨false, 0, now, none⟩).object probe b) =
      s.timers.filter fun b => s.behindCut probe now b :=
    List.filter_congr fun b hb => decide_eq_decide.mpr (before_probe (hne b hb))
  rw [hsplit.1, hsplit.2, htake, hdrop]
  exact ⟨rfl, rfl⟩

/-- The call takes these timers out of the set, and the loop goes over them. -/
theorem Ordered.listExpiredCb_eq (h : s.Ordered) (hprobe : probe ∉ s.timers)
    (hroll : (s.detectClockRollover now).1 = false) :
    s.taken probe now = [] ∧ (∃ u, u.object = s.object ∧ u.timers = s.timers ∧ s.listExpiredCb probe now = ([], u)) ∨
    s.listExpiredCb probe now = TimerObjects.rearm now (s.taken probe now) { s.set probe ⟨false, 0, now, none⟩ with
      timers := s.timers.filter fun b => s.behindCut probe now b, previouseTime := now } := by
  unfold listExpiredCb detectClockRollover
  unfold detectClockRollover at hroll
  dsimp only at hroll ⊢
  rw [hroll]
  by_cases hempty : s.timers = []
  · refine Or.inl ⟨?_, s, rfl, rfl, if_pos hempty⟩
    unfold taken
    rw [hempty, List.filter_nil]
  · rw [if_neg hempty]
    by_cases hdue : ∃ first ∈ s.timers.head?, (s.object first).next > now
    · refine Or.inl ⟨List.filter_eq_nil_iff.mpr fun b hb => ?_, { s with previouseTime := now }, rfl, rfl, ?_⟩
      · obtain ⟨first, hfirst, hnext⟩ := hdue
        have hlater := Nat.lt_of_lt_of_le hnext (h.head_le hfirst hb)
        simpa using show s.behindCut probe now b from Or.inl hlater
      · exact if_pos ⟨rfl, hdue⟩
    · refine Or.inr ?_
      obtain ⟨htake, hdrop⟩ := h.split_probe now hprobe
      rw [if_neg fun hcond => hdue hcond.2]
      show TimerObjects.rearm now
          (s.timers.take (OrderedSet.upperBound (before (s.set probe ⟨false, 0, now, none⟩).object) s.timers probe))
          { s.set probe ⟨false, 0, now, none⟩ with
            timers := s.timers.drop
              (OrderedSet.upperBound (before (s.set probe ⟨false, 0, now, none⟩).object) s.timers probe)
            previouseTime := now } = _
      rw [htake, hdrop]

/-- What the call hands out, which timers are in the set afterwards, and what has become of them. -/
theorem Ordered.listExpiredCb (h : s.Ordered) (hprobe : probe ∉ s.timers)
    (hroll : (s.detectClockRollover now).1 = false) :
    (s.listExpiredCb probe now).1 = (s.taken probe now).map (fun b => (s.object b).cb) ∧
      (s.listExpiredCb probe now).2.Ordered ∧
      (∀ b, b ∈ (s.listExpiredCb probe now).2.timers ↔
        b ∈ s.timers ∧ (s.behindCut probe now b ∨ (s.object b).recurring = true)) ∧
      ∀ b ∈ s.timers, (s.listExpiredCb probe now).2.object b =
        if s.behindCut probe now b then s.object b else fired now (s.object b) := by
  have hne : ∀ b ∈ s.timers, b ≠ probe := fun b hb e => hprobe (e ▸ hb)
  rcases h.listExpiredCb_eq hprobe hroll with ⟨hnone, u, hobject, htimers, heq⟩ | heq
  · have hbehind : ∀ b ∈ s.timers, s.behindCut probe now b := fun b hb => by
      by_contra hcut
      have hin := mem_taken.mpr ⟨hb, hcut⟩
      rw [hnone] at hin
      cases hin
    rw [heq, hnone]
    refine ⟨rfl, ?_, fun b => ?_, fun b hb => ?_⟩
    · unfold Ordered
      rw [hobject, htimers]
      exact h
    · rw [htimers]
      exact ⟨fun hb => ⟨hb, Or.inl (hbehind b hb)⟩, And.left⟩
    · rw [hobject, if_pos (hbehind b hb)]
  · have hnodup : (s.taken probe now).Nodup := h.nodup.filter _
    have hrest : ({ s.set probe ⟨false, 0, now, none⟩ with
        timers := s.timers.filter fun b => s.behindCut probe now b, previouseTime := now } : TimerObjects Cb).Ordered :=
      (h.set hprobe).sublist List.filter_sublist
    have hapart : ∀ a ∈ s.taken probe now, a ∉ s.timers.filter fun b => s.behindCut probe now b := by
      intro a ha hin
      exact (mem_taken.mp ha).2 (of_decide_eq_true (List.mem_filter.mp hin).2)
    obtain ⟨hordered, hmem⟩ := hrest.rearm now hapart hnodup
    rw [heq]
    refine ⟨?_, hordered, fun b => ?_, fun b hb => ?_⟩
    · rw [rearm_cbs hnodup]
      refine List.map_congr_left fun b hb => ?_
      dsimp only
      rw [set_object_of_ne (hne b (mem_taken.mp hb).1)]
    · rw [hmem, mem_taken, List.mem_filter, decide_eq_true_iff]
      dsimp only
      by_cases hb : b ∈ s.timers
      · rw [set_object_of_ne (hne b hb)]
        by_cases hcut : s.behindCut probe now b <;> simp [hb, hcut]
      · simp [hb]
    · rw [rearm_object hnodup]
      dsimp only
      rw [set_object_of_ne (hne b hb)]
      by_cases hcut : s.behindCut probe now b
      · rw [if_neg fun hin => (mem_taken.mp hin).2 hcut, if_pos hcut]
      · rw [if_pos (mem_taken.mpr ⟨hb, hcut⟩), if_neg hcut]

/-- Without a roll-over the timers that expire are those in front of the cut. -/
theorem Ordered.expired_eq (h : s.Ordered) (hprobe : probe ∉ s.timers)
    (hroll : (s.detectClockRollover now).1 = false) : s.expired probe now = s.taken probe now := by
  obtain ⟨hcbs, -⟩ := h.listExpiredCb hprobe hroll
  obtain ⟨htake, -⟩ := h.split_probe now hprobe
  have hprefix : s.taken probe now <+: s.timers := htake ▸ List.take_prefix ..
  unfold expired
  rw [hcbs, List.length_map]
  exact (List.prefix_iff_eq_take.mp hprefix).symm

theorem rearmOne_fields : (rearmOne now s a).tickled = s.tickled ∧ (rearmOne now s a).previouseTime = s.previouseTime := by
  unfold rearmOne
  split <;> exact ⟨rfl, rfl⟩

theorem rearm_fields : (rearm now out s).2.tickled = s.tickled ∧ (rearm now out s).2.previouseTime = s.previouseTime := by
  induction out generalizing s with
  | nil => exact ⟨rfl, rfl⟩
  | cons a out ih =>
    rw [rearm_cons]
    exact ⟨ih.1.trans rearmOne_fields.1, ih.2.trans rearmOne_fields.2⟩

/-- The call tells nobody, and remembers the clock at most. -/
theorem listExpiredCb_fields (s : TimerObjects Cb) (probe now : Nat) :
    (s.listExpiredCb probe now).2.tickled = s.tickled ∧
      ((s.listExpiredCb probe now).2.previouseTime = s.previouseTime ∨
        (s.listExpiredCb probe now).2.previouseTime = now) := by
  unfold listExpiredCb
  dsimp only
  split_ifs
  · exact ⟨rfl, Or.inl rfl⟩
  · exact ⟨rfl, Or.inr rfl⟩
  · exact ⟨rearm_fields.1, Or.inr rearm_fields.2⟩
  · exact ⟨rearm_fields.1, Or.inr rearm_fields.2⟩

/-! ### Exact expiry -/

/-- What a call at `now` is to do: it hands out the callbacks of the timers that are due, each once and in the order of
    their due times, and leaves those that are not and, with a new due time, those that recur. -/
structure Expires (s : TimerObjects Cb) (now : Nat) (cbs : List (Option Cb)) (t : TimerObjects Cb) : Prop where
  handed : ∃ expired : List Nat, expired.Nodup ∧ (∀ a, a ∈ expired ↔ a ∈ s.timers ∧ (s.object a).next ≤ now) ∧
    expired.Pairwise (fun a b => (s.object a).next ≤ (s.object b).next) ∧ cbs = expired.map fun a => (s.object a).cb
  kept : ∀ a, a ∈ t.timers ↔ a ∈ s.timers ∧ (now < (s.object a).next ∨ (s.object a).recurring = true)
  rearmed : ∀ a ∈ s.timers, (s.object a).next ≤ now → (s.object a).recurring = true →
    t.object a = { s.object a with next := wrap64 (now + (s.object a).ms) }
  cleared : ∀ a ∈ s.timers, (s.object a).next ≤ now → (s.object a).recurring = false →
    t.object a = { s.object a with cb := none }
  untouched : ∀ a ∈ s.timers, now < (s.object a).next → t.object a = s.object a
  ordered : t.timers.Pairwise (before t.object)

/-- The cut is where it should be when no timer that is due right now has an address above the probe's. -/
theorem behindCut_iff (hcut : ∀ a ∈ s.timers, (s.object a).next = now → a < probe)
    (hb : b ∈ s.timers) : s.behindCut probe now b ↔ now < (s.object b).next := by
  refine ⟨fun h => ?_, Or.inl⟩
  rcases h with h | ⟨h, hlt⟩
  · exact h
  · exact absurd (hcut b hb h.symm) (Nat.lt_asymm hlt)

theorem expires_of_cut (hs : s.Ordered) (hprobe : probe ∉ s.timers) (hroll : (s.detectClockRollover now).1 = false)
    (hcut : ∀ a ∈ s.timers, (s.object a).next = now → a < probe) :
    Expires s now (s.listExpiredCb probe now).1 (s.listExpiredCb probe now).2 := by
  obtain ⟨hcbs, hordered, hkept, hobject⟩ := hs.listExpiredCb hprobe hroll
  have hbehind := fun {b} => behindCut_iff (b := b) hcut
  refine ⟨⟨s.taken probe now, hs.nodup.filter _, fun a => ?_, ?_, hcbs⟩, fun a => ?_, fun a ha hdue hrec => ?_,
    fun a ha hdue hrec => ?_, fun a ha hlater => ?_, hordered⟩
  · rw [mem_taken]
    refine and_congr_right fun ha => ?_
    rw [hbehind ha, Nat.not_lt]
  · refine (List.Pairwise.sublist List.filter_sublist hs).imp fun {a b} hab => ?_
    unfold before at hab
    omega
  · rw [hkept]
    refine and_congr_right fun ha => ?_
    rw [hbehind ha]
  · rw [hobject a ha, if_neg (mt (hbehind ha).mp (Nat.not_lt.mpr hdue)), fired, if_pos hrec]
  · rw [hobject a ha, if_neg (mt (hbehind ha).mp (Nat.not_lt.mpr hdue)), fired, if_neg (by simp [hrec])]
  · rw [hobject a ha, if_pos ((hbehind ha).mpr hlater)]

/-- The call expires exactly the timers that are due, and at least one where `getNextTimer` says that it is time,
    if and only if no timer of the set that is due at this very moment has an address above the probe's. -/
theorem listExpiredCb_exact (hs : s.timers.Pairwise (before s.object)) (hprobe : probe ∉ s.timers)
    (hroll : (s.detectClockRollover now).1 = false) :
    (Expires s now (s.listExpiredCb probe now).1 (s.listExpiredCb probe now).2 ∧
      ((s.getNextTimer now).1 = 0 → (s.listExpiredCb probe now).1 ≠ [])) ↔
    ∀ a ∈ s.timers, (s.object a).next = now → a < probe := by
  constructor
  · rintro ⟨hexpires, -⟩ a ha hnext
    obtain ⟨expired, hnodup, hmem, -, hcbs⟩ := hexpires.handed
    obtain ⟨hout, -⟩ := Ordered.listExpiredCb hs hprobe hroll
    -- as many are taken as are due, so those that are due are all taken
    have hsub : (s.taken probe now).Subperm expired := by
      refine List.subperm_of_subset (List.Nodup.filter _ (Ordered.nodup hs)) fun b hb => (hmem b).mpr ?_
      obtain ⟨hb, hcut⟩ := mem_taken.mp hb
      exact ⟨hb, Nat.not_lt.mp fun hlt => hcut (Or.inl hlt)⟩
    have hlen : expired.length ≤ (s.taken probe now).length := by
      have hlength := congrArg List.length (hcbs.symm.trans hout)
      rw [List.length_map, List.length_map] at hlength
      exact Nat.le_of_eq hlength
    have hperm := hsub.perm_of_length_le hlen
    have htaken := hperm.mem_iff.mpr ((hmem a).mpr ⟨ha, Nat.le_of_eq hnext⟩)
    refine Nat.lt_of_le_of_ne (Nat.not_lt.mp fun hlt => ?_) fun e => hprobe (e ▸ ha)
    exact (mem_taken.mp htaken).2 (Or.inr ⟨hnext.symm, hlt⟩)
  · intro hcut
    refine ⟨expires_of_cut hs hprobe hroll hcut, fun hnow => ?_⟩
    obtain ⟨hout, -⟩ := Ordered.listExpiredCb hs hprobe hroll
    unfold getNextTimer at hnow
    rcases htimers : s.timers with _ | ⟨a, rest⟩
    · rw [htimers] at hnow
      cases hnow
    · rw [htimers] at hnow
      dsimp only at hnow
      have ha : a ∈ s.timers := htimers ▸ List.mem_cons_self
      have hdue : (s.object a).next ≤ now := by
        split_ifs at hnow with hdue
        · exact hdue
        · omega
      have htaken : a ∈ s.taken probe now :=
        mem_taken.mpr ⟨ha, fun hbehind => Nat.not_lt.mpr hdue ((behindCut_iff hcut ha).mp hbehind)⟩
      rw [hout]
      exact List.ne_nil_of_mem (List.mem_map_of_mem htaken)

/-- Two timers are due at 10 and one later; the probe has an address above theirs. -/
theorem listExpiredCb_exact_ties :
    let s := (exec step Ok (TimerObjects.new 0 : TimerObjects Nat) [.addTimer 16 0 10 (some 1) true,
      .addTimer 8 0 10 (some 2) false, .addTimer 24 0 20 (some 3) false]).get (by decide +kernel)
    Expires s 10 (s.listExpiredCb 32 10).1 (s.listExpiredCb 32 10).2 ∧
      ((s.getNextTimer 10).1 = 0 → (s.listExpiredCb 32 10).1 ≠ []) := by
  intro s
  have hs : s.timers.Pairwise (before s.object) :=
    (reach_valid (reach_of_exec (Option.some_get _).symm : Reach step Ok _ s)).sorted
  exact (listExpiredCb_exact hs (by decide +kernel) (by decide +kernel)).mpr (by decide +kernel)

/-- A timer is due at 10 and the probe has an address below its: nothing expires, and the time to the next timer
    is nought. -/
theorem due_kept : ¬∀ (s : TimerObjects Nat) (probe now : Nat), s.timers.Pairwise (before s.object) →
    probe ∉ s.timers → (s.detectClockRollover now).1 = false →
    Expires s now (s.listExpiredCb probe now).1 (s.listExpiredCb probe now).2 ∧
      ((s.getNextTimer now).1 = 0 → (s.listExpiredCb probe now).1 ≠ []) := by
  intro h
  let s := ((TimerObjects.new 0 : TimerObjects Nat).addTimer 16 0 10 (some 1) false).2
  have hdue := (h s 8 10 (by decide) (by decide) (by decide)).2 (by decide)
  exact hdue (by decide)

end TimerObjects
end MyHttp
