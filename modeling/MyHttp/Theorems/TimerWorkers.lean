import MyHttp.TimerWorkers
import MyHttp.Theorems.TimerSet
import MyHttp.Lib.Run

/-! The look at the first timer under the write lock relies on the check under the read lock. It finds a timer as long
    as no worker and no cancellation takes the last one out in between. -/

namespace MyHttp

open Lib Lib.Run Lib.Machine

namespace TimerObjects

variable {Cb : Type} {s t : TimerObjects Cb} {a b now probe : Nat} {out : List Nat}

/-- The call is the check and, where there are timers, the part under the write lock. -/
theorem listExpiredCb_locked (h : s.timers ≠ []) : s.expireLocked probe now = some (s.listExpiredCb probe now) := by
  unfold expireLocked listExpiredCb
  rw [if_neg h]
  dsimp only [detectClockRollover]
  rw [if_neg (fun hc => h hc.2)]
  split_ifs <;> rfl

theorem insert_timers_ne_nil : (s.insert a).timers ≠ [] := OrderedSet.insert_ne_nil

/-- The loop over the expired timers empties no set, and puts back those that recur. -/
theorem rearm_ne_nil (h : s.timers ≠ [] ∨ ∃ b ∈ out, (s.object b).recurring = true) :
    (rearm now out s).2.timers ≠ [] := by
  induction out generalizing s with
  | nil =>
    rcases h with h | ⟨b, hb, -⟩
    · exact h
    · cases hb
  | cons a out ih =>
    rw [rearm_cons]
    refine ih ?_
    by_cases hrec : (s.object a).recurring = true
    · refine Or.inl ?_
      unfold rearmOne
      rw [if_pos hrec]
      exact insert_timers_ne_nil
    · rcases h with h | ⟨b, hb, hbrec⟩
      · refine Or.inl ?_
        unfold rearmOne
        rwa [if_neg hrec, set_timers]
      · have hne : b ≠ a := fun e => hrec (e ▸ hbrec)
        refine Or.inr ⟨b, (List.mem_cons.mp hb).resolve_left hne, ?_⟩
        rwa [rearmOne_object_of_ne hne]

/-- What is behind the probe is not taken. -/
theorem not_mem_take_upperBound {object : Nat → TimerObject Cb} {l : List Nat} (h : before object probe b) :
    b ∉ l.take (OrderedSet.upperBound (before object) l probe) := by
  intro hb
  obtain ⟨i, hi, rfl⟩ := List.mem_take_iff_getElem.mp hb
  have hlt : i < l.findIdx fun c => before object probe c := Nat.lt_of_lt_of_le hi (Nat.min_le_left ..)
  exact absurd h (by simpa using List.not_of_lt_findIdx hlt)

/-- Either nothing is due, or the first timers of the set leave it: all of them after a roll-over. -/
theorem expireLocked_cases {r : List (Option Cb) × TimerObjects Cb} (h : s.expireLocked probe now = some r) :
    r.2.timers = s.timers ∨ ∃ it, r = rearm now (s.timers.take it)
      { s.set probe ⟨false, 0, now, none⟩ with timers := s.timers.drop it, previouseTime := now } ∧
      ((s.detectClockRollover now).1 = false →
        it = OrderedSet.upperBound (before (s.set probe ⟨false, 0, now, none⟩).object) s.timers probe) := by
  unfold expireLocked at h
  dsimp only at h
  split_ifs at h
  · obtain rfl := Option.some.inj h
    exact Or.inl rfl
  · rename_i hroll
    obtain rfl := Option.some.inj h
    exact Or.inr ⟨_, rfl, fun hfalse => absurd (hroll.symm.trans hfalse) Bool.true_eq_false_eq_False⟩
  · obtain rfl := Option.some.inj h
    exact Or.inr ⟨_, rfl, fun _ => rfl⟩

/-- Where a timer of the set stays, the set is not empty afterwards. -/
theorem expireLocked_ne_nil {r : List (Option Cb) × TimerObjects Cb} (hprobe : probe ∉ s.timers)
    (hb : b ∈ s.timers) (hstays : s.stays probe now b) (h : s.expireLocked probe now = some r) : r.2.timers ≠ [] := by
  have hne : b ≠ probe := fun e => hprobe (e ▸ hb)
  rcases expireLocked_cases h with htimers | ⟨it, rfl, hit⟩
  · rw [htimers]
    exact List.ne_nil_of_mem hb
  · refine rearm_ne_nil ?_
    by_cases htake : b ∈ s.timers.take it
    · rcases hstays with hrec | ⟨hroll, hbefore⟩
      · refine Or.inr ⟨b, htake, ?_⟩
        dsimp only
        rwa [set_object_of_ne hne]
      · rw [hit hroll] at htake
        exact absurd htake (not_mem_take_upperBound hbefore)
    · refine Or.inl (List.ne_nil_of_mem (a := b) ?_)
      rw [← List.take_append_drop it s.timers] at hb
      exact (List.mem_append.mp hb).resolve_left htake

/-- A cancellation leaves the other timers in the set. -/
theorem cancel_ne_nil {r : Bool × TimerObjects Cb} (h : s.cancel a = some r) (hs : s.timers ≠ [])
    (hother : (s.object a).cb.isSome → ∃ b ∈ s.timers, b ≠ a) : r.2.timers ≠ [] := by
  unfold TimerObjects.cancel at h
  dsimp only at h
  split_ifs at h with hcb
  · obtain ⟨it, hfind, rfl⟩ := Option.map_eq_some_iff.mp h
    obtain ⟨b, hb, hne⟩ := hother hcb
    rw [find_set (by rfl)] at hfind
    have hat := find_place hfind
    obtain ⟨i, hi, rfl⟩ := List.mem_iff_getElem.mp hb
    refine List.ne_nil_of_mem (a := s.timers[i]) (List.mem_eraseIdx_iff_getElem.mpr ⟨i, hi, fun e => ?_, rfl⟩)
    rw [← e, List.getElem?_eq_getElem hi] at hat
    exact hne (Option.some.inj hat)
  · obtain rfl := Option.some.inj h
    exact hs

theorem insertTimer_ne_nil : (s.insertTimer a).2.timers ≠ [] := OrderedSet.insert_ne_nil

theorem refresh_ne_nil (h : s.timers ≠ []) : (s.refresh a now).2.timers ≠ [] := by
  unfold TimerObjects.refresh
  split
  · exact h
  · split
    · exact h
    · exact insert_timers_ne_nil

theorem reset_ne_nil {ms : Nat} {fromNow : Bool} (h : s.timers ≠ []) :
    (s.reset a now ms fromNow).2.2.timers ≠ [] := by
  unfold TimerObjects.reset
  split
  · exact h
  · split
    · exact h
    · split
      · exact h
      · exact insertTimer_ne_nil

end TimerObjects

namespace TimerWorkers

variable {Cb : Type} {n : Nat} {s t : TimerWorkers Cb n} {w v : Fin n}

/-- Where a worker is between the two locks there are timers. -/
def Occupied (s : TimerWorkers Cb n) : Prop := (∃ w, s.between w) → s.manager.timers ≠ []

theorem between_checked {now : Nat} (h : s.pc w = .checked now) : s.between w := by
  unfold between
  rw [h]
  trivial

theorem not_between_outside (h : s.pc w = .outside) : ¬s.between w := by
  unfold between
  rw [h]
  exact id

/-- A worker that moves to another place changes nothing for the others. -/
theorem between_goto_of_ne {pc : ExpiryPc} (h : v ≠ w) : (s.goto w pc).between v ↔ s.between v := by
  unfold between goto
  dsimp only
  rw [Function.update_of_ne h]

/-- A step that moves no worker and leaves a timer. -/
theorem Occupied.of_timers (h : s.Occupied) {manager : TimerObjects Cb}
    (hm : (∃ w, s.between w) → s.manager.timers ≠ [] → manager.timers ≠ []) : Occupied { s with manager } :=
  fun hw => hm hw (h hw)

theorem Occupied.enter (h : s.Occupied) {now : Nat} : (s.goto w (.entered now)).Occupied := by
  rintro ⟨v, hv⟩
  rcases eq_or_ne v w with rfl | hne
  · unfold between goto at hv
    dsimp only at hv
    rw [Function.update_self] at hv
    exact hv.elim
  · exact h ⟨v, (between_goto_of_ne hne).mp hv⟩

theorem Occupied.check (h : s.Occupied) {now : Nat} :
    (s.goto w (if s.manager.timers = [] then .outside else .checked now)).Occupied := by
  rintro ⟨v, hv⟩
  rcases eq_or_ne v w with rfl | hne
  · by_cases hempty : s.manager.timers = []
    · rw [if_pos hempty] at hv
      exact absurd hv (not_between_outside (Function.update_self ..))
    · exact hempty
  · exact h ⟨v, (between_goto_of_ne hne).mp hv⟩

theorem Occupied.step {a : Act Cb n} (h : s.Occupied) (hok : s.LeavesOne a) (hs : s.step a = some t) : t.Occupied := by
  cases a with
  | enter w now =>
    simp only [TimerWorkers.step] at hs
    split_ifs at hs
    obtain rfl := Option.some.inj hs
    exact h.enter
  | check w =>
    simp only [TimerWorkers.step] at hs
    split at hs
    case h_1 now hpc =>
      obtain rfl := Option.some.inj hs
      exact h.check
    case h_2 => cases hs
  | expire w probe =>
    simp only [TimerWorkers.step] at hs
    split at hs
    case h_1 now hpc =>
      split_ifs at hs with hprobe
      obtain ⟨r, hr, rfl⟩ := Option.map_eq_some_iff.mp hs
      rintro ⟨v, hv⟩
      rcases eq_or_ne v w with rfl | hne
      · exact absurd hv (not_between_outside (Function.update_self ..))
      · have hother : s.between v := (between_goto_of_ne (s := { s with manager := r.2 }) hne).mp hv
        have hstays := hok ⟨v, hne, hother⟩
        rw [hpc] at hstays
        obtain ⟨b, hb, hstays⟩ := hstays
        exact TimerObjects.expireLocked_ne_nil hprobe hb hstays hr
    case h_2 => cases hs
  | addTimer a now ms cb recurring =>
    obtain rfl := Option.some.inj hs
    exact h.of_timers fun _ _ => TimerObjects.insertTimer_ne_nil
  | cancel a =>
    obtain ⟨r, hr, rfl⟩ := Option.map_eq_some_iff.mp hs
    exact h.of_timers fun hw hne => TimerObjects.cancel_ne_nil hr hne (hok hw)
  | refresh a now =>
    obtain rfl := Option.some.inj hs
    exact h.of_timers fun _ => TimerObjects.refresh_ne_nil
  | reset a now ms fromNow =>
    obtain rfl := Option.some.inj hs
    exact h.of_timers fun _ => TimerObjects.reset_ne_nil

/-- In every run in which a step that takes timers out leaves one while a worker is between the two locks, every look
    at the first timer finds one. -/
theorem looks_safely {now : Nat} (h : Reach step LeavesOne (init now) s) : s.LooksSafely := by
  have hoccupied : s.Occupied :=
    h.invariant (P := Occupied) (fun ⟨_, hw⟩ => hw.elim) fun _ _ _ hi hok hs => hi.step hok hs
  exact fun w _ hpc _ => hoccupied ⟨w, between_checked hpc⟩

/-- Two workers have seen the one timer, and the other one takes it out. -/
theorem looks_at_none : ¬∀ (n now : Nat) (s : TimerWorkers Nat n), Reach step (fun _ _ => True) (init now) s →
    s.LooksSafely := by
  intro h
  let s := (exec step (fun _ _ => True) (init 0 : TimerWorkers Nat 2) [.addTimer 16 0 5 (some 1) false, .enter 0 10,
    .enter 1 10, .check 0, .check 1, .expire 1 24]).get (by decide)
  have hr : Reach step (fun _ _ => True) (init 0) s := reach_of_exec (Option.some_get _).symm
  exact h 2 0 s hr 0 10 (by decide) (by decide) (by decide)

/-- Two workers have seen two timers, of which one recurs; the other one takes both out and puts that one back. -/
theorem looks_safely_recurring : ∃ s : TimerWorkers Nat 2, s.pc 0 = .checked 10 ∧ s.LooksSafely := by
  let s := (exec step LeavesOne (init 0 : TimerWorkers Nat 2) [.addTimer 16 0 5 (some 1) true,
    .addTimer 8 0 5 (some 2) false, .enter 0 10, .enter 1 10, .check 0, .check 1, .expire 1 24]).get (by decide)
  exact ⟨s, by decide, looks_safely (reach_of_exec (Option.some_get _).symm)⟩

end TimerWorkers
end MyHttp
