import MyHttp.TimerSleeper
import MyHttp.Theorems.TimerExpiry

/-! A thread that sleeps until the earliest due time is told of every earlier one. Only an insertion in front tells;
    a refresh, and a timer that recurs, move a due time without telling, but never to an earlier moment: every due
    time of the set was made from a reading of the clock that lies behind. -/

namespace MyHttp

open Lib Lib.Run Lib.Machine

namespace TimerObjects

variable {Cb : Type} {s t : TimerObjects Cb} {a b now clock probe it : Nat} {o : TimerObject Cb}

/-! ### Timers that are taken out and put back -/

/-- A timer that a search finds is taken out and changed; the others are as they were. -/
theorem Ordered.takeOut (h : s.Ordered) (hfind : s.find a = some it) (o : TimerObject Cb) :
    (TimerObjects.set { s with timers := s.timers.eraseIdx it } a o).Ordered ∧ a ∉ s.timers.eraseIdx it ∧
      (∀ b, b ∈ s.timers.eraseIdx it ↔ b ∈ s.timers ∧ b ≠ a) ∧ a ∈ s.timers := by
  have ha := List.mem_of_getElem? (find_place hfind)
  obtain ⟨i, hi, hsorted, hmem⟩ := OrderedSet.erase_mem h ha
  obtain rfl : i = it := Option.some.inj (hi.symm.trans hfind)
  have hnot : a ∉ s.timers.eraseIdx i := fun hin => ((hmem a).mp hin).2 rfl
  have herased : Ordered { s with timers := s.timers.eraseIdx i } := hsorted
  exact ⟨herased.set hnot, hnot, hmem, ha⟩

/-- Where an insertion does not tell, somebody has been told already, or an earlier timer is in the set. -/
theorem Ordered.insertTimer_tells (h : s.Ordered) (ha : a ∉ s.timers) : (s.insertTimer a).1 = true ∨
    s.tickled = true ∨ ∃ b ∈ s.timers, (s.object b).next ≤ (s.object a).next := by
  have htotal : ∀ b ∈ s.timers, before s.object a b ∨ before s.object b a := fun b hb =>
    before_total s.object (show a ≠ b from fun e => ha (e ▸ hb))
  rcases htick : s.tickled with _ | _
  · by_cases hplace : (OrderedSet.insert (before s.object) s.timers a).2 = 0
    · left
      exact decide_eq_true ⟨hplace, htick⟩
    · right
      right
      obtain ⟨hsorted, hmem⟩ := h.insert ha
      have hhead := mt (OrderedSet.head_insert h htotal).mp hplace
      rcases hl : (s.insert a).timers with _ | ⟨b, rest⟩
      · have hin := (hmem a).mpr (Or.inl rfl)
        rw [hl] at hin
        cases hin
      · have hba : b ≠ a := by
          rintro rfl
          exact hhead (show (s.insert b).timers.head? = some b by rw [hl]; rfl)
        have hb : b ∈ (s.insert a).timers := hl ▸ List.mem_cons_self
        have hle := hsorted.head_le (by rw [hl]; rfl) ((hmem a).mpr (Or.inl rfl))
        exact ⟨b, ((hmem b).mp hb).resolve_left hba, hle⟩
  · exact Or.inr (Or.inl rfl)

/-- The due time was made from a reading of the clock that is not ahead of `clock`. -/
structure Timely (clock : Nat) (o : TimerObject Cb) : Prop where
  base : o.ms ≤ o.next
  fits : o.next < 2 ^ 64
  behind : o.next ≤ clock + o.ms

theorem Timely.later {clock' : Nat} (h : Timely clock o) (hle : clock ≤ clock') : Timely clock' o where
  base := h.base
  fits := h.fits
  behind := h.behind.trans (Nat.add_le_add_right hle _)

/-- A due time counted from now is timely, and not before a timely one with the same period. -/
theorem Timely.rearm (h : Timely clock o) (hle : clock ≤ now) (hfits : now + o.ms < 2 ^ 64) :
    Timely now { o with next := wrap64 (now + o.ms) } ∧ o.next ≤ wrap64 (now + o.ms) := by
  rw [wrap64_of_lt hfits]
  exact ⟨⟨Nat.le_add_left .., hfits, Nat.le_refl _⟩, (h.later hle).behind⟩

end TimerObjects

namespace TimerSleeper

open TimerObjects

variable {Cb : Type} {s t : TimerSleeper Cb} {a b now probe it : Nat}

/-- The timers are timely, and for what is due before the deadline the thread has been told. -/
structure Watched (s : TimerSleeper Cb) : Prop where
  ordered : s.manager.Ordered
  timely : ∀ a ∈ s.manager.timers, Timely s.clock (s.manager.object a)
  flag : s.manager.tickled = true → s.notified = true
  early : ∀ a ∈ s.manager.timers, WithTop.some (s.manager.object a).next < s.deadline → s.notified = true
  forward : s.manager.previouseTime ≤ s.clock

theorem watched_init : Watched (init now : TimerSleeper Cb) where
  ordered := .nil
  timely _ h := by cases h
  flag h := by cases h
  early _ h := by cases h
  forward := Nat.le_refl _

/-- After `getNextTimer` nothing is due before the deadline. -/
theorem Watched.getNextTimer (h : s.Watched) (hle : s.clock ≤ now) :
    Watched ⟨(s.manager.getNextTimer now).2, now, s.manager.earliest, false⟩ where
  ordered := h.ordered
  timely a ha := (h.timely a ha).later hle
  flag hflag := by cases hflag
  early a ha hlt := absurd hlt (List.not_lt_minimum_of_mem' (List.mem_map_of_mem ha))
  forward := h.forward.trans hle

/-- A step after which no timer is due earlier than it was. -/
theorem Watched.of_later (h : s.Watched) {manager : TimerObjects Cb} {clock : Nat} (hordered : manager.Ordered)
    (hlater : ∀ a ∈ manager.timers, Timely clock (manager.object a) ∧ a ∈ s.manager.timers ∧
      (s.manager.object a).next ≤ (manager.object a).next)
    (hflag : manager.tickled = s.manager.tickled) (hforward : manager.previouseTime ≤ clock) :
    Watched { s with manager, clock } where
  ordered := hordered
  timely a ha := (hlater a ha).1
  flag ht := h.flag (hflag ▸ ht)
  early a ha hlt := by
    obtain ⟨-, hin, hle⟩ := hlater a ha
    exact h.early a hin (lt_of_le_of_lt (WithTop.coe_le_coe.mpr hle) hlt)
  forward := hforward

/-- A step in which only the clock moves. -/
theorem Watched.of_clock (h : s.Watched) {clock : Nat} (hle : s.clock ≤ clock) : Watched { s with clock } :=
  h.of_later h.ordered (fun a ha => ⟨(h.timely a ha).later hle, ha, Nat.le_refl _⟩) rfl (h.forward.trans hle)

/-- An insertion that may tell, into a set of timers that were there before. -/
theorem Watched.insertTimer (h : s.Watched) {manager : TimerObjects Cb} {clock : Nat} (hle : s.clock ≤ clock)
    (hordered : manager.Ordered) (ha : a ∉ manager.timers) (htimely : Timely clock (manager.object a))
    (hothers : ∀ b ∈ manager.timers, b ∈ s.manager.timers ∧ manager.object b = s.manager.object b)
    (hflag : manager.tickled = s.manager.tickled) (hforward : manager.previouseTime = s.manager.previouseTime) :
    Watched { s with
      manager := (manager.insertTimer a).2, clock, notified := s.notified || (manager.insertTimer a).1 } := by
  obtain ⟨hsorted, hmem⟩ := hordered.insert ha
  have hearly : ∀ b ∈ manager.timers, WithTop.some (manager.object b).next < s.deadline → s.notified = true := by
    intro b hb hlt
    obtain ⟨hin, hobject⟩ := hothers b hb
    exact h.early b hin (hobject ▸ hlt)
  refine ⟨hsorted, fun b hb => ?_, fun ht => ?_, fun b hb hlt => ?_, ?_⟩
  · rcases (hmem b).mp hb with rfl | hb
    · exact htimely
    · obtain ⟨hin, hobject⟩ := hothers b hb
      show Timely clock (manager.object b)
      rw [hobject]
      exact (h.timely b hin).later hle
  · rcases (Bool.or_eq_true ..).mp ht with ht | ht
    · rw [h.flag (hflag ▸ ht), Bool.true_or]
    · exact (Bool.or_eq_true ..).mpr (Or.inr ht)
  · rcases (hmem b).mp hb with rfl | hb
    · rcases hordered.insertTimer_tells ha with htell | htick | ⟨c, hc, hle⟩
      · exact (Bool.or_eq_true ..).mpr (Or.inr htell)
      · exact (Bool.or_eq_true ..).mpr (Or.inl (h.flag (hflag ▸ htick)))
      · have hlt : WithTop.some (manager.object b).next < s.deadline := hlt
        exact (Bool.or_eq_true ..).mpr (Or.inl (hearly c hc (lt_of_le_of_lt (WithTop.coe_le_coe.mpr hle) hlt)))
    · exact (Bool.or_eq_true ..).mpr (Or.inl (hearly b hb hlt))
  · show manager.previouseTime ≤ clock
    rw [hforward]
    exact h.forward.trans hle

theorem Watched.cancel (h : s.Watched) {r : Bool × TimerObjects Cb} (hc : s.manager.cancel a = some r) :
    Watched { s with manager := r.2 } := by
  unfold TimerObjects.cancel at hc
  dsimp only at hc
  split_ifs at hc with hcb
  · obtain ⟨it, hfind, rfl⟩ := Option.map_eq_some_iff.mp hc
    rw [find_set (by rfl)] at hfind
    obtain ⟨hordered, -, hmem, -⟩ := h.ordered.takeOut hfind { s.manager.object a with cb := none }
    refine h.of_later hordered (fun b hb => ?_) rfl h.forward
    obtain ⟨hin, hne⟩ := (hmem b).mp hb
    dsimp only
    rw [set_object_of_ne hne]
    exact ⟨h.timely b hin, hin, Nat.le_refl _⟩
  · obtain rfl := Option.some.inj hc
    exact h

theorem Watched.refresh (h : s.Watched) (hle : s.clock ≤ now)
    (hfits : (s.manager.object a).cb.isSome → now + (s.manager.object a).ms < 2 ^ 64) :
    Watched { s with manager := (s.manager.refresh a now).2, clock := now } := by
  rcases hcb : (s.manager.object a).cb with _ | cb
  · rw [refresh_dead hcb]
    exact h.of_clock hle
  · unfold TimerObjects.refresh
    rw [if_neg (by simp [hcb])]
    rcases hfind : s.manager.find a with _ | it
    · exact h.of_clock hle
    · obtain ⟨hordered, hnot, hmem, ha⟩ := h.ordered.takeOut hfind
        { s.manager.object a with next := wrap64 (now + (s.manager.object a).ms) }
      obtain ⟨hsorted, hins⟩ := hordered.insert hnot
      obtain ⟨htimely, hlater⟩ := (h.timely a ha).rearm hle (hfits (by rw [hcb]; rfl))
      refine h.of_later hsorted (fun b hb => ?_) rfl (h.forward.trans hle)
      dsimp only
      rcases (hins b).mp hb with rfl | hb
      · rw [insert_object, set_object_self]
        exact ⟨htimely, ha, hlater⟩
      · obtain ⟨hin, hne⟩ := (hmem b).mp hb
        rw [insert_object, set_object_of_ne hne]
        exact ⟨(h.timely b hin).later hle, hin, Nat.le_refl _⟩

/-- The due time that a reset counts from is a reading of the clock that lies behind. -/
theorem Watched.resetStart_le (h : s.Watched) (ha : a ∈ s.manager.timers) (fromNow : Bool) {clock : Nat}
    (hle : s.clock ≤ clock) (hnow : fromNow = true → now ≤ clock) : s.manager.resetStart a now fromNow ≤ clock := by
  obtain ⟨hbase, hfits, hbehind⟩ := h.timely a ha
  unfold resetStart
  cases fromNow with
  | true => exact hnow rfl
  | false =>
    rw [if_neg Bool.false_ne_true, sub64_of_le hbase hfits]
    exact (Nat.sub_le_iff_le_add.mpr hbehind).trans hle

theorem Watched.reset (h : s.Watched) {ms clock : Nat} {fromNow : Bool} (hle : s.clock ≤ clock)
    (hnow : fromNow = true → now ≤ clock)
    (hfits : (s.manager.object a).cb.isSome → ¬(ms = (s.manager.object a).ms ∧ fromNow = false) →
      s.manager.resetStart a now fromNow + ms < 2 ^ 64) :
    Watched { s with
      manager := (s.manager.reset a now ms fromNow).2.2, clock
      notified := s.notified || (s.manager.reset a now ms fromNow).2.1 } := by
  have hsame : Watched { s with clock, notified := s.notified || false } := by
    rw [Bool.or_false]
    exact h.of_clock hle
  unfold TimerObjects.reset
  by_cases hms : ms = (s.manager.object a).ms ∧ fromNow = false
  · rw [if_pos hms]
    exact hsame
  · rw [if_neg hms]
    rcases hcb : (s.manager.object a).cb with _ | cb
    · exact hsame
    · rw [if_neg (by simp)]
      rcases hfind : s.manager.find a with _ | it
      · exact hsame
      · have hsum := hfits (by rw [hcb]; rfl) hms
        obtain ⟨hordered, hnot, hmem, ha⟩ := h.ordered.takeOut hfind
          { s.manager.object a with ms := ms, next := wrap64 (s.manager.resetStart a now fromNow + ms) }
        have htimely : Timely clock { s.manager.object a with
            ms := ms, next := wrap64 (s.manager.resetStart a now fromNow + ms) } := by
          rw [wrap64_of_lt hsum]
          exact ⟨Nat.le_add_left .., hsum, Nat.add_le_add_right (h.resetStart_le ha fromNow hle hnow) _⟩
        refine h.insertTimer hle hordered hnot ?_ (fun b hb => ?_) rfl rfl
        · rw [set_object_self]
          exact htimely
        · obtain ⟨hin, hne⟩ := (hmem b).mp hb
          exact ⟨hin, set_object_of_ne hne⟩

theorem Watched.listExpiredCb (h : s.Watched) (hle : s.clock ≤ now) (hprobe : probe ∉ s.manager.timers)
    (hfits : ∀ a ∈ s.manager.timers, (s.manager.object a).recurring = true → (s.manager.object a).next ≤ now →
      now + (s.manager.object a).ms < 2 ^ 64) :
    Watched { s with manager := (s.manager.listExpiredCb probe now).2, clock := now } := by
  have hforward := h.forward.trans hle
  have hroll : (s.manager.detectClockRollover now).1 = false :=
    decide_eq_false fun hback => Nat.not_lt.mpr hforward hback.1
  obtain ⟨-, hordered, hkept, hobject⟩ := h.ordered.listExpiredCb hprobe hroll
  obtain ⟨hflag, hprevious⟩ := listExpiredCb_fields s.manager probe now
  refine h.of_later hordered (fun b hb => ?_) hflag ?_
  · obtain ⟨hin, hstays⟩ := (hkept b).mp hb
    rw [hobject b hin]
    by_cases hbehind : s.manager.behindCut probe now b
    · rw [if_pos hbehind]
      exact ⟨(h.timely b hin).later hle, hin, Nat.le_refl _⟩
    · have hrec := hstays.resolve_left hbehind
      have hdue : (s.manager.object b).next ≤ now := Nat.not_lt.mp fun hlt => hbehind (Or.inl hlt)
      rw [if_neg hbehind, fired, if_pos hrec]
      obtain ⟨htimely, hlater⟩ := (h.timely b hin).rearm hle (hfits b hin hrec hdue)
      exact ⟨htimely, hin, hlater⟩
  · rcases hprevious with heq | heq
    · rw [heq]
      exact hforward
    · exact Nat.le_of_eq heq

theorem Watched.step {a : Act Cb} (h : s.Watched) (hok : s.Steady a) (hs : s.step a = some t) : t.Watched := by
  cases a with
  | getNextTimer now =>
    obtain rfl := Option.some.inj hs
    exact h.getNextTimer hok
  | operation act =>
    obtain ⟨hclock, hfits, hnew⟩ := hok
    obtain ⟨manager, hmanager, rfl⟩ := Option.map_eq_some_iff.mp hs
    cases act with
    | addTimer a now ms cb recurring =>
      obtain rfl := Option.some.inj hmanager
      refine h.insertTimer (hclock now rfl) (h.ordered.set hnew) hnew ?_ (fun b hb => ?_) rfl rfl
      · rw [set_object_self, wrap64_of_lt hfits]
        exact ⟨Nat.le_add_left .., hfits, Nat.le_refl _⟩
      · exact ⟨hb, set_object_of_ne fun e => hnew (e ▸ hb)⟩
    | cancel a =>
      obtain ⟨r, hr, rfl⟩ := Option.map_eq_some_iff.mp hmanager
      have hcancel := h.cancel hr
      simpa [TimerObjects.tells, TimerObjects.Act.reading] using hcancel
    | refresh a now =>
      obtain rfl := Option.some.inj hmanager
      have hrefresh := h.refresh (hclock now rfl) hfits
      simpa [TimerObjects.tells, TimerObjects.Act.reading] using hrefresh
    | reset a now ms fromNow =>
      obtain rfl := Option.some.inj hmanager
      cases fromNow with
      | true => exact h.reset (hclock now rfl) (fun _ => Nat.le_refl _) hfits
      | false => exact h.reset (Nat.le_refl _) (fun he => by cases he) hfits
    | listExpiredCb probe now =>
      obtain rfl := Option.some.inj hmanager
      have hexpired := h.listExpiredCb (hclock now rfl) hnew hfits
      simpa [TimerObjects.tells, TimerObjects.Act.reading] using hexpired

/-- In every run with a clock that never goes back and due times that do not wrap, a timer that is due before the
    deadline of the last `getNextTimer` has been told of since. -/
theorem earlier_told (h : Reach step Steady (init now) s) (ha : a ∈ s.manager.timers)
    (hlt : WithTop.some (s.manager.object a).next < s.deadline) : s.notified = true := by
  have hw : Watched s := h.invariant (P := Watched) watched_init fun _ _ _ hi hok hs => hi.step hok hs
  exact hw.early a ha hlt

/-- A timer goes in front of the one the thread sleeps for and is refreshed; another goes in front of it untold. -/
theorem earlier_told_twice :
    let s := (exec step Steady (init 0 : TimerSleeper Nat) [.operation (.addTimer 16 0 50 (some 1) true),
      .getNextTimer 1, .operation (.addTimer 24 2 20 (some 2) false), .operation (.refresh 24 3),
      .operation (.addTimer 8 4 5 (some 3) false)]).get (by decide +kernel)
    s.notified = true := by
  intro s
  have hr : Reach step Steady (init 0) s := reach_of_exec (Option.some_get _).symm
  exact earlier_told hr (a := 8) (by decide +kernel) (by decide +kernel)

end TimerSleeper
end MyHttp
