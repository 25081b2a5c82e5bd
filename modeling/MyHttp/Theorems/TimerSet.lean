import MyHttp.TimerObjects
import Mathlib.Data.List.Nodup
import MyHttp.Lib.Run

/-! A timer is in the set as long as it has a callback, and the set stays in the order of the due times: every
    operation takes a timer out before it changes the due time and puts it back afterwards. -/

namespace MyHttp
namespace TimerObjects

open Lib Lib.Run Lib.Machine

variable {Cb : Type} {s t : TimerObjects Cb} {a b now probe it : Nat} {o : TimerObject Cb} {out : List Nat}

instance (object : Nat → TimerObject Cb) : Std.Irrefl (before object) where
  irrefl a h := by
    unfold before at h
    omega

instance (object : Nat → TimerObject Cb) : IsTrans Nat (before object) where
  trans a b c h₁ h₂ := by
    unfold before at *
    omega

theorem before_total (object : Nat → TimerObject Cb) (h : a ≠ b) : before object a b ∨ before object b a := by
  unfold before
  omega

@[simp] theorem set_timers : (s.set a o).timers = s.timers := rfl

@[simp] theorem set_object_self : (s.set a o).object a = o := Function.update_self ..

theorem set_object_of_ne (h : b ≠ a) : (s.set a o).object b = s.object b := Function.update_of_ne h ..

@[simp] theorem insert_object : (s.insert a).object = s.object := rfl

/-- The order reads nothing but the due times. -/
theorem before_set (h : o.next = (s.object a).next) : before (s.set a o).object = before s.object := by
  have hnext : ∀ b, ((s.set a o).object b).next = (s.object b).next := by
    intro b
    by_cases hb : b = a
    · rw [hb, set_object_self, h]
    · rw [set_object_of_ne hb]
  funext b c
  unfold before
  rw [hnext, hnext]

theorem find_set (h : o.next = (s.object a).next) : (s.set a o).find b = s.find b := by
  unfold find
  simp only [before_set h, set_timers]

/-- What a search finds is the timer it is for. -/
theorem find_place (h : s.find a = some it) : s.timers[it]? = some a := by
  obtain ⟨b, hb, hba, hab⟩ := OrderedSet.find_eq_some h
  obtain rfl : b = a := by_contra fun hne => (before_total s.object hne).elim hba hab
  exact hb

/-! ### The invariant -/

/-- A change outside the set leaves the order of the set. -/
theorem pairwise_set (h : s.timers.Pairwise (before s.object)) (ha : a ∉ s.timers) :
    (s.set a o).timers.Pairwise (before (s.set a o).object) := by
  refine h.imp_of_mem fun {b c} hb hc hbc => ?_
  have hba : b ≠ a := fun e => ha (e ▸ hb)
  have hca : c ≠ a := fun e => ha (e ▸ hc)
  unfold before at *
  rwa [set_object_of_ne hba, set_object_of_ne hca]

/-- The set is in order, and the timers with a callback are in it, but for those taken `out`. -/
structure Valid (s : TimerObjects Cb) (out : List Nat) : Prop where
  live : ∀ b, b ∈ s.timers ↔ (s.object b).cb.isSome ∧ b ∉ out
  sorted : s.timers.Pairwise (before s.object)

theorem Valid.new : Valid (TimerObjects.new now : TimerObjects Cb) [] where
  live b := by simp [TimerObjects.new]
  sorted := .nil

theorem Valid.nodup (h : s.Valid out) : s.timers.Nodup := OrderedSet.nodup_of_sorted h.sorted

theorem Valid.not_mem (h : s.Valid out) (hcb : (s.object a).cb = none) : a ∉ s.timers := by
  intro ha
  have hlive := ((h.live a).mp ha).1
  rw [hcb] at hlive
  cases hlive

/-- The search for a timer of the set gives its place. -/
theorem Valid.find (h : s.Valid out) (ha : a ∈ s.timers) : ∃ it, s.find a = some it ∧ s.timers[it]? = some a :=
  OrderedSet.find_mem h.sorted ha

theorem Valid.erase (h : s.Valid out) (ha : a ∈ s.timers) :
    ∃ it, s.find a = some it ∧ Valid { s with timers := s.timers.eraseIdx it } (a :: out) := by
  obtain ⟨it, hfind, hsorted, hmem⟩ := OrderedSet.erase_mem h.sorted ha
  refine ⟨it, hfind, fun b => ?_, hsorted⟩
  dsimp only
  rw [hmem, h.live, List.mem_cons, not_or, and_assoc, and_comm (a := b ∉ out)]

/-- An object outside the set may be changed. -/
theorem Valid.set (h : s.Valid out) (ha : a ∉ s.timers) : (s.set a o).Valid (a :: out) where
  live b := by
    by_cases hb : b = a
    · subst hb
      simpa using ha
    · rw [set_timers, h.live, set_object_of_ne hb]
      simp [hb]
  sorted := pairwise_set h.sorted ha

/-- A timer that has been taken out may be changed. -/
theorem Valid.set_out (h : s.Valid (a :: out)) (o : TimerObject Cb) : (s.set a o).Valid (a :: out) := by
  obtain ⟨hlive, hsorted⟩ := h.set (o := o) fun hmem => ((h.live a).mp hmem).2 List.mem_cons_self
  refine ⟨fun b => ?_, hsorted⟩
  rw [hlive]
  simp

/-- A timer taken out without a callback stays out. -/
theorem Valid.dead (h : s.Valid (a :: out)) (hcb : (s.object a).cb = none) : s.Valid out where
  live b := by
    rw [h.live, List.mem_cons, not_or]
    refine and_congr_right fun hlive => and_iff_right ?_
    rintro rfl
    rw [hcb] at hlive
    cases hlive
  sorted := h.sorted

/-- A timer taken out with a callback comes back. -/
theorem Valid.insert (h : s.Valid (a :: out)) (hcb : (s.object a).cb.isSome) (ha : a ∉ out) : (s.insert a).Valid out := by
  have hnot : a ∉ s.timers := fun hmem => ((h.live a).mp hmem).2 List.mem_cons_self
  obtain ⟨hsorted, hperm, -⟩ := OrderedSet.insert_new h.sorted fun b hb =>
    before_total s.object (show a ≠ b from fun e => hnot (e ▸ hb))
  refine ⟨fun b => ?_, hsorted⟩
  have hmem : b ∈ (s.insert a).timers ↔ b ∈ a :: s.timers := hperm.mem_iff
  rw [hmem, insert_object, List.mem_cons, h.live, List.mem_cons, not_or]
  by_cases hb : b = a
  · subst hb
    simp [hcb, ha]
  · simp [hb]

/-! ### The operations -/

theorem Valid.of_eq (h : s.Valid out) (hobject : t.object = s.object) (htimers : t.timers = s.timers) : t.Valid out where
  live b := by rw [hobject, htimers, h.live]
  sorted := by
    rw [hobject, htimers]
    exact h.sorted

theorem Valid.insertTimer (h : s.Valid (a :: out)) (hcb : (s.object a).cb.isSome) (ha : a ∉ out) :
    (s.insertTimer a).2.Valid out := (h.insert hcb ha).of_eq rfl rfl

theorem Valid.addTimer {ms : Nat} {cb : Option Cb} {recurring : Bool} (h : s.Valid []) (ha : (s.object a).cb = none)
    (hcb : cb.isSome) : (s.addTimer a now ms cb recurring).2.Valid [] :=
  (h.set (h.not_mem ha)).insertTimer (by rwa [set_object_self]) List.not_mem_nil

/-- The cancellation of a live timer finds it. -/
theorem cancel_live (h : s.Valid []) (hcb : (s.object a).cb.isSome) :
    ∃ it, s.find a = some it ∧ Valid { s with timers := s.timers.eraseIdx it } [a] ∧
      s.cancel a = some (true, (TimerObjects.set { s with timers := s.timers.eraseIdx it } a { s.object a with cb := none })) := by
  obtain ⟨it, hfind, hv⟩ := h.erase ((h.live a).mpr ⟨hcb, List.not_mem_nil⟩)
  refine ⟨it, hfind, hv, ?_⟩
  unfold cancel
  dsimp only
  rw [if_pos hcb, find_set (by rfl), hfind]
  rfl

theorem cancel_dead (hcb : (s.object a).cb = none) : s.cancel a = some (false, s) := by
  unfold cancel
  rw [hcb]
  rfl

theorem Valid.cancel {r : Bool × TimerObjects Cb} (h : s.Valid []) (hc : s.cancel a = some r) : r.2.Valid [] := by
  rcases hcb : (s.object a).cb with _ | cb
  · rw [cancel_dead hcb] at hc
    obtain rfl := Option.some.inj hc
    exact h
  · obtain ⟨it, -, hv, heq⟩ := cancel_live h (show (s.object a).cb.isSome by rw [hcb]; rfl)
    rw [heq] at hc
    obtain rfl := Option.some.inj hc
    exact (hv.set_out _).dead (by simp)

theorem refresh_live (now : Nat) (h : s.Valid []) (hcb : (s.object a).cb.isSome) : ∃ it, s.find a = some it ∧
    s.refresh a now = (true, (TimerObjects.set { s with timers := s.timers.eraseIdx it } a
      { s.object a with next := wrap64 (now + (s.object a).ms) }).insert a) ∧ (s.refresh a now).2.Valid [] := by
  obtain ⟨it, hfind, hv⟩ := h.erase ((h.live a).mpr ⟨hcb, List.not_mem_nil⟩)
  have heq : s.refresh a now = (true, (TimerObjects.set { s with timers := s.timers.eraseIdx it } a
      { s.object a with next := wrap64 (now + (s.object a).ms) }).insert a) := by
    unfold refresh
    rw [if_neg (by simpa [Option.isSome_iff_ne_none] using hcb), hfind]
  refine ⟨it, hfind, heq, ?_⟩
  rw [heq]
  refine (hv.set_out _).insert ?_ List.not_mem_nil
  rwa [set_object_self]

theorem refresh_dead (hcb : (s.object a).cb = none) : s.refresh a now = (false, s) := by
  unfold refresh
  rw [hcb]
  rfl

theorem reset_live {ms : Nat} {fromNow : Bool} (now : Nat) (h : s.Valid []) (hcb : (s.object a).cb.isSome)
    (hms : ¬(ms = (s.object a).ms ∧ fromNow = false)) : ∃ it, s.find a = some it ∧
    s.reset a now ms fromNow = (true, (TimerObjects.set { s with timers := s.timers.eraseIdx it } a
      { s.object a with ms := ms, next := wrap64 (s.resetStart a now fromNow + ms) }).insertTimer a) ∧
    (s.reset a now ms fromNow).2.2.Valid [] := by
  obtain ⟨it, hfind, hv⟩ := h.erase ((h.live a).mpr ⟨hcb, List.not_mem_nil⟩)
  have heq : s.reset a now ms fromNow = (true, (TimerObjects.set { s with timers := s.timers.eraseIdx it } a
      { s.object a with ms := ms, next := wrap64 (s.resetStart a now fromNow + ms) }).insertTimer a) := by
    unfold reset
    rw [if_neg hms, if_neg (by simpa [Option.isSome_iff_ne_none] using hcb), hfind]
    rfl
  refine ⟨it, hfind, heq, ?_⟩
  rw [heq]
  refine (hv.set_out _).insertTimer ?_ List.not_mem_nil
  rwa [set_object_self]

theorem reset_dead {ms : Nat} {fromNow : Bool} (hcb : (s.object a).cb = none) : (s.reset a now ms fromNow).2.2 = s := by
  unfold reset
  split
  · rfl
  · rw [hcb]
    rfl

theorem Valid.reset {ms : Nat} {fromNow : Bool} (h : s.Valid []) : (s.reset a now ms fromNow).2.2.Valid [] := by
  rcases hcb : (s.object a).cb with _ | cb
  · rwa [reset_dead hcb]
  · by_cases hms : ms = (s.object a).ms ∧ fromNow = false
    · unfold TimerObjects.reset
      rwa [if_pos hms]
    · obtain ⟨-, -, -, hv⟩ := reset_live now h (show (s.object a).cb.isSome by rw [hcb]; rfl) hms
      exact hv

theorem Valid.refresh (h : s.Valid []) : (s.refresh a now).2.Valid [] := by
  rcases hcb : (s.object a).cb with _ | cb
  · rwa [refresh_dead hcb]
  · obtain ⟨-, -, -, hv⟩ := refresh_live now h (show (s.object a).cb.isSome by rw [hcb]; rfl)
    exact hv

/-! ### The expired timers -/

/-- One turn of the loop. -/
def rearmOne (now : Nat) (s : TimerObjects Cb) (a : Nat) : TimerObjects Cb :=
  if (s.object a).recurring then
    (s.set a { s.object a with next := wrap64 (now + (s.object a).ms) }).insert a
  else s.set a { s.object a with cb := none }

theorem rearm_cons : rearm now (a :: out) s =
    ((s.object a).cb :: (rearm now out (rearmOne now s a)).1, (rearm now out (rearmOne now s a)).2) := rfl

theorem rearmOne_object_of_ne (h : b ≠ a) : (rearmOne now s a).object b = s.object b := by
  unfold rearmOne
  split
  · rw [insert_object, set_object_of_ne h]
  · rw [set_object_of_ne h]

theorem rearmOne_cb : ((rearmOne now s a).object a).cb = if (s.object a).recurring then (s.object a).cb else none := by
  unfold rearmOne
  split
  · rw [insert_object, set_object_self]
  · rw [set_object_self]

theorem Valid.rearmOne (h : s.Valid (a :: out)) (hcb : (s.object a).cb.isSome) (ha : a ∉ out) :
    (rearmOne now s a).Valid out := by
  unfold TimerObjects.rearmOne
  split
  · exact (h.set_out _).insert (by rwa [set_object_self]) ha
  · exact (h.set_out _).dead (by rw [set_object_self])

theorem Valid.rearm (h : s.Valid out) (hlive : ∀ a ∈ out, (s.object a).cb.isSome) (hnodup : out.Nodup) :
    (rearm now out s).2.Valid [] := by
  induction out generalizing s with
  | nil => exact h
  | cons a out ih =>
    obtain ⟨ha, hnodup⟩ := List.nodup_cons.mp hnodup
    rw [rearm_cons]
    refine ih (h.rearmOne (hlive a List.mem_cons_self) ha) (fun b hb => ?_) hnodup
    rw [rearmOne_object_of_ne (fun e : b = a => ha (e ▸ hb))]
    exact hlive b (List.mem_cons_of_mem a hb)

/-- The callbacks taken are those of the expired timers, in their order. -/
theorem rearm_cbs (hnodup : out.Nodup) : (rearm now out s).1 = out.map fun a => (s.object a).cb := by
  induction out generalizing s with
  | nil => rfl
  | cons a out ih =>
    obtain ⟨ha, hnodup⟩ := List.nodup_cons.mp hnodup
    rw [rearm_cons, ih hnodup, List.map_cons]
    refine congrArg _ (List.map_congr_left fun b hb => ?_)
    rw [rearmOne_object_of_ne (fun e : b = a => ha (e ▸ hb))]

/-- A timer loses its callback in the loop only when it is among the expired ones and does not recur. -/
theorem rearm_cb (hnodup : out.Nodup) : ((rearm now out s).2.object b).cb =
    if b ∈ out ∧ (s.object b).recurring = false then none else (s.object b).cb := by
  induction out generalizing s with
  | nil => simp [rearm]
  | cons a out ih =>
    obtain ⟨ha, hnodup⟩ := List.nodup_cons.mp hnodup
    rw [rearm_cons, ih hnodup]
    by_cases hb : b = a
    · subst hb
      rw [if_neg (fun hmem => ha hmem.1), rearmOne_cb]
      cases (s.object b).recurring <;> simp
    · rw [rearmOne_object_of_ne hb]
      simp [hb]

/-- The timers that leave the set and those that stay. -/
theorem Valid.split (h : s.Valid []) (i : Nat) : Valid { s with timers := s.timers.drop i } (s.timers.take i) where
  live b := by
    have hnodup : (s.timers.take i ++ s.timers.drop i).Nodup := by
      rw [List.take_append_drop]
      exact h.nodup
    have happend : b ∈ s.timers ↔ b ∈ s.timers.take i ∨ b ∈ s.timers.drop i := by
      rw [← List.mem_append, List.take_append_drop]
    have hlive := h.live b
    have hdisjoint : b ∈ s.timers.drop i → b ∉ s.timers.take i := fun hdrop htake =>
      (List.nodup_append.mp hnodup).2.2 b htake b hdrop rfl
    dsimp only
    grind
  sorted := h.sorted.drop

/-- Either nothing is due, or the first timers of the set leave it. -/
theorem listExpiredCb_cases (s : TimerObjects Cb) (probe now : Nat) :
    (∃ u, u.object = s.object ∧ u.timers = s.timers ∧ s.listExpiredCb probe now = ([], u)) ∨
    ∃ it, s.listExpiredCb probe now = rearm now (s.timers.take it)
      { s.set probe ⟨false, 0, now, none⟩ with timers := s.timers.drop it, previouseTime := now } := by
  unfold listExpiredCb detectClockRollover
  by_cases hempty : s.timers = []
  · exact Or.inl ⟨s, rfl, rfl, if_pos hempty⟩
  · rw [if_neg hempty]
    dsimp only
    by_cases hdue : decide (now < s.previouseTime ∧ now < sub64 s.previouseTime (60 * 60 * 1000)) = false ∧
        ∃ first ∈ s.timers.head?, (s.object first).next > now
    · exact Or.inl ⟨{ s with previouseTime := now }, rfl, rfl, if_pos hdue⟩
    · rw [if_neg hdue]
      exact Or.inr ⟨_, rfl⟩

/-- The expired timers are the first ones of the set; their callbacks are handed out, and only those among them that
    do not recur lose theirs. -/
theorem listExpiredCb_expired (now : Nat) (h : s.Valid []) (hprobe : (s.object probe).cb = none) :
    (s.expired probe now).Sublist s.timers ∧
    (s.listExpiredCb probe now).1 = ((s.expired probe now).map fun a => (s.object a).cb) ∧
    (∀ b, ((s.listExpiredCb probe now).2.object b).cb =
      if b ∈ s.expired probe now ∧ (s.object b).recurring = false then none else (s.object b).cb) ∧
    (s.listExpiredCb probe now).2.Valid [] := by
  refine ⟨List.take_sublist .., ?_⟩
  unfold expired
  rcases listExpiredCb_cases s probe now with ⟨u, hobject, htimers, heq⟩ | ⟨it, heq⟩
  · rw [heq]
    refine ⟨rfl, fun b => ?_, h.of_eq hobject htimers⟩
    rw [hobject]
    simp
  · have hmem := h.not_mem hprobe
    have hset : (s.set probe ⟨false, 0, now, none⟩).Valid [] := (h.set hmem).dead (by simp)
    have hobject : ∀ b ∈ s.timers, (s.set probe ⟨false, 0, now, none⟩).object b = s.object b := fun b hb =>
      set_object_of_ne fun e => hmem (e ▸ hb)
    have hcb : ∀ b, ((s.set probe ⟨false, 0, now, none⟩).object b).cb = (s.object b).cb := by
      intro b
      by_cases hb : b = probe
      · rw [hb, hprobe, set_object_self]
      · rw [set_object_of_ne hb]
    have hv := (hset.split it).of_eq (t := { s.set probe ⟨false, 0, now, none⟩ with
      timers := s.timers.drop it, previouseTime := now }) rfl rfl
    have hnodup : (s.timers.take it).Nodup := h.nodup.sublist (List.take_sublist ..)
    have htake : s.timers.take (s.listExpiredCb probe now).1.length = s.timers.take it := by
      rw [heq, rearm_cbs hnodup, List.length_map, List.length_take]
      exact List.take_eq_take_iff.mpr (Nat.min_eq_left (Nat.min_le_right ..))
    rw [htake, heq]
    refine ⟨?_, fun b => ?_, ?_⟩
    · rw [rearm_cbs hnodup]
      exact List.map_congr_left fun b _ => hcb b
    · rw [rearm_cb hnodup]
      dsimp only
      by_cases hb : b ∈ s.timers
      · rw [hobject b hb]
      · rw [if_neg fun hin => hb (List.mem_of_mem_take hin.1), if_neg fun hin => hb (List.mem_of_mem_take hin.1), hcb]
    · exact hv.rearm (fun a ha => ((hset.live a).mp (List.mem_of_mem_take ha)).1) hnodup

theorem Valid.step {act : Act Cb} (h : s.Valid []) (hok : s.Ok act) (hs : s.step act = some t) : t.Valid [] := by
  cases act with
  | addTimer a now ms cb recurring =>
    obtain rfl := Option.some.inj hs
    exact h.addTimer hok.1 hok.2
  | cancel a =>
    obtain ⟨r, hr, rfl⟩ := Option.map_eq_some_iff.mp hs
    exact h.cancel hr
  | refresh a now =>
    obtain rfl := Option.some.inj hs
    exact h.refresh
  | reset a now ms fromNow =>
    obtain rfl := Option.some.inj hs
    exact h.reset
  | listExpiredCb probe now =>
    obtain rfl := Option.some.inj hs
    obtain ⟨-, -, -, hv⟩ := listExpiredCb_expired now h hok
    exact hv

theorem reach_valid (h : Reach step Ok (TimerObjects.new now) s) : s.Valid [] :=
  h.invariant (P := fun s => s.Valid []) .new fun _ _ _ hv hok hs => hv.step hok hs

/-! ### Callbacks stay until they are cancelled or fired -/

theorem set_cb (h : o.cb = (s.object a).cb) : ((s.set a o).object b).cb = (s.object b).cb := by
  by_cases hb : b = a
  · rw [hb, set_object_self, h]
  · rw [set_object_of_ne hb]

theorem refresh_cb : ((s.refresh a now).2.object b).cb = (s.object b).cb := by
  unfold refresh
  split
  · rfl
  · split
    · rfl
    · exact set_cb rfl

theorem reset_cb {ms : Nat} {fromNow : Bool} : ((s.reset a now ms fromNow).2.2.object b).cb = (s.object b).cb := by
  unfold reset
  split
  · rfl
  · split
    · rfl
    · split
      · rfl
      · exact set_cb rfl

theorem cancel_cb {r : Bool × TimerObjects Cb} (h : s.cancel a = some r) (hb : b ≠ a) :
    (r.2.object b).cb = (s.object b).cb := by
  unfold cancel at h
  split at h
  · obtain ⟨it, -, rfl⟩ := Option.map_eq_some_iff.mp h
    exact congrArg TimerObject.cb (set_object_of_ne hb)
  · obtain rfl := Option.some.inj h
    rfl

/-- A step takes the callback of a timer away only by a cancellation, or by handing it out for the last time. -/
theorem step_cb {act : Act Cb} (h : s.Valid []) (hok : s.Ok act) (hs : s.step act = some t)
    (ha : (s.object a).cb.isSome) : (t.object a).cb = (s.object a).cb ∨ act = .cancel a ∨
      ∃ probe now, act = .listExpiredCb probe now ∧ (s.object a).recurring = false ∧
        (s.object a).cb ∈ (s.listExpiredCb probe now).1 := by
  cases act with
  | addTimer b now ms cb recurring =>
    obtain rfl := Option.some.inj hs
    refine Or.inl (congrArg TimerObject.cb (set_object_of_ne ?_))
    rintro rfl
    rw [hok.1] at ha
    cases ha
  | cancel b =>
    obtain ⟨r, hr, rfl⟩ := Option.map_eq_some_iff.mp hs
    by_cases hab : a = b
    · exact Or.inr (Or.inl (by rw [hab]))
    · exact Or.inl (cancel_cb hr hab)
  | refresh b now =>
    obtain rfl := Option.some.inj hs
    exact Or.inl refresh_cb
  | reset b now ms fromNow =>
    obtain rfl := Option.some.inj hs
    exact Or.inl reset_cb
  | listExpiredCb probe now =>
    obtain rfl := Option.some.inj hs
    obtain ⟨-, hcbs, hcb, -⟩ := listExpiredCb_expired now h hok
    by_cases hout : a ∈ s.expired probe now ∧ (s.object a).recurring = false
    · refine Or.inr (Or.inr ⟨probe, now, rfl, hout.2, ?_⟩)
      rw [hcbs]
      exact List.mem_map_of_mem hout.1
    · exact Or.inl ((hcb a).trans (if_neg hout))

/-! ### Runs -/

/-- In every state reached, the timers in the set are those with a callback, each in it once and in the order of the
    present due times. A search finds every live timer, no cancellation erases `end()`, the callbacks handed out are
    those of live timers, and a timer loses its callback only to `cancel` or to its last firing. -/
theorem timers_live (h : Reach step Ok (TimerObjects.new now) s) :
    (∀ a, a ∈ s.timers ↔ (s.object a).cb.isSome) ∧ (∀ a ∈ s.timers, s.timers.count a = 1) ∧
    s.timers.Pairwise (before s.object) ∧
    (∀ a, (s.object a).cb.isSome → ∃ it, s.find a = some it ∧ s.timers[it]? = some a) ∧
    (∀ a, ∃ t, s.cancel a = some ((s.object a).cb.isSome, t)) ∧
    (∀ a now, (s.refresh a now).1 = (s.object a).cb.isSome) ∧
    (∀ a now ms fromNow, ¬(ms = (s.object a).ms ∧ fromNow = false) →
      (s.reset a now ms fromNow).1 = (s.object a).cb.isSome) ∧
    (∀ probe now, (s.object probe).cb = none → ∃ expired : List Nat, expired.Sublist s.timers ∧
      (s.listExpiredCb probe now).1 = expired.map fun a => (s.object a).cb) ∧
    ∀ act t a, s.Ok act → s.step act = some t → (s.object a).cb.isSome → (t.object a).cb.isSome ∨ act = .cancel a ∨
      ∃ probe now, act = .listExpiredCb probe now ∧ (s.object a).recurring = false ∧
        (s.object a).cb ∈ (s.listExpiredCb probe now).1 := by
  have hv := reach_valid h
  have hlive : ∀ a, a ∈ s.timers ↔ (s.object a).cb.isSome := fun a => by simpa using hv.live a
  refine ⟨hlive, fun a ha => List.count_eq_one_of_mem hv.nodup ha, hv.sorted,
    fun a ha => hv.find ((hlive a).mpr ha), fun a => ?_, fun a now => ?_, fun a now ms fromNow hms => ?_,
    fun probe now hprobe => ?_, fun act t a hok hs ha => ?_⟩
  · rcases hcb : (s.object a).cb with _ | cb
    · exact ⟨s, cancel_dead hcb⟩
    · obtain ⟨it, -, -, heq⟩ := cancel_live hv (show (s.object a).cb.isSome by rw [hcb]; rfl)
      exact ⟨_, heq⟩
  · rcases hcb : (s.object a).cb with _ | cb
    · rw [refresh_dead hcb]
      rfl
    · obtain ⟨it, -, heq, -⟩ := refresh_live now hv (show (s.object a).cb.isSome by rw [hcb]; rfl)
      rw [heq]
      rfl
  · rcases hcb : (s.object a).cb with _ | cb
    · unfold reset
      rw [if_neg hms, hcb]
      rfl
    · obtain ⟨it, -, heq, -⟩ := reset_live now hv (show (s.object a).cb.isSome by rw [hcb]; rfl) hms
      rw [heq]
      rfl
  · obtain ⟨hsub, hcbs, -⟩ := listExpiredCb_expired now hv hprobe
    exact ⟨_, hsub, hcbs⟩
  · refine (step_cb hv hok hs ha).imp_left fun hcb => ?_
    rwa [hcb]

/-- A clock that falls back fires both timers; the one that recurs stays in the set. -/
theorem timers_live_rollover :
    let s := (exec step Ok (TimerObjects.new 5000000 : TimerObjects Nat) [.addTimer 16 5000000 50 (some 1) true,
      .addTimer 8 5000000 10 (some 2) false, .refresh 8 5000045, .reset 16 5000045 5 false,
      .listExpiredCb 24 1000]).get (by decide +kernel)
    s.timers = [16] ∧ s.timers.count 16 = 1 ∧ (s.cancel 16).isSome := by
  intro s
  obtain ⟨-, hcount, -, -, hcancel, -⟩ := timers_live (reach_of_exec (Option.some_get _).symm : Reach step Ok _ s)
  have htimers : s.timers = [16] := by decide +kernel
  obtain ⟨t, ht⟩ := hcancel 16
  exact ⟨htimers, hcount 16 (by rw [htimers]; exact List.mem_singleton_self _), by rw [ht]; rfl⟩

end TimerObjects
end MyHttp
