import MyHttp.Timer
import MyHttp.Theorems.TimerSet

/-! The timer objects read as values: each call on the objects is the same call on the ordered list of values, in which
    a timer that changes is a new value. -/

namespace MyHttp

open Lib Lib.Run Lib.Machine

namespace TimerManager

/-- `Timer::refresh` on the values: the value leaves the list and a new one comes in. -/
def refresh (m : TimerManager) (a now : Nat) : TimerManager :=
  match m.timers.find? (·.addr = a) with
  | none => m
  | some t => (m.erase a).insert { t with next := wrap64 (now + t.ms) }

def reset (m : TimerManager) (a now ms : Nat) (fromNow : Bool) : TimerManager :=
  match m.timers.find? (·.addr = a) with
  | none => m
  | some t =>
    if ms = t.ms ∧ fromNow = false then m else
    let start := if fromNow then now else sub64 t.next t.ms
    ((m.erase a).addTimer { t with ms := ms, next := wrap64 (start + ms) }).2

def call {Cb : Type} (m : TimerManager) : TimerObjects.Act Cb → TimerManager
  | .addTimer a now ms _ recurring => (m.addTimer (.new a now ms recurring)).2
  | .cancel a => m.erase a
  | .refresh a now => m.refresh a now
  | .reset a now ms fromNow => m.reset a now ms fromNow
  | .listExpiredCb probe now => (m.listExpiredCb probe now).2

end TimerManager

namespace TimerObjects

variable {Cb : Type} {s t : TimerObjects Cb} {m : TimerManager} {a b now probe it : Nat} {o : TimerObject Cb}
  {out : List Nat}

def value (s : TimerObjects Cb) (a : Nat) : Timer :=
  { addr := a, recurring := (s.object a).recurring, ms := (s.object a).ms, next := (s.object a).next }

/-- The list holds what the objects of the set say at the moment. -/
structure Shows (s : TimerObjects Cb) (m : TimerManager) : Prop where
  timers : m.timers = s.timers.map s.value
  tickled : m.tickled = s.tickled
  previouseTime : m.previouseTime = s.previouseTime

theorem Shows.new : Shows (TimerObjects.new now : TimerObjects Cb) (.new now) := ⟨rfl, rfl, rfl⟩

/-! ### The values -/

theorem value_set_self : (s.set a o).value a = { addr := a, recurring := o.recurring, ms := o.ms, next := o.next } := by
  unfold value
  rw [set_object_self]

theorem value_set_of_ne (h : b ≠ a) : (s.set a o).value b = s.value b := by
  unfold value
  rw [set_object_of_ne h]

theorem before_value : (s.value a).before (s.value b) ↔ before s.object a b := Iff.rfl

/-- The two insertions make the same comparisons. -/
theorem map_insert (l : List Nat) :
    (OrderedSet.insert (before s.object) l a).1.map s.value = (s.value a).insertInto (l.map s.value) := by
  induction l with
  | nil => rfl
  | cons b l ih =>
    rw [OrderedSet.insert_cons, List.map_cons]
    unfold Timer.insertInto
    simp only [before_value]
    by_cases hab : before s.object a b
    · have hba : ¬before s.object b a := by
        unfold before at *
        omega
      rw [if_neg hba, if_pos hab, if_pos hab, List.map_cons, List.map_cons]
    · rw [if_neg hab, if_neg hab]
      by_cases hba : before s.object b a
      · rw [if_pos hba, if_pos hba, List.map_cons, ih]
      · rw [if_neg hba, if_neg hba, List.map_cons]

/-- The list finds the value of a live timer. -/
theorem Shows.find_live (h : Shows s m) (hv : s.Valid []) (hcb : (s.object a).cb.isSome) :
    m.timers.find? (·.addr = a) = some (s.value a) := by
  have hmem : a ∈ s.timers := (hv.live a).mpr ⟨hcb, List.not_mem_nil⟩
  rw [h.timers, List.find?_map]
  have hfind : s.timers.find? ((fun t : Timer => decide (t.addr = a)) ∘ s.value) = some a := by
    rcases hf : s.timers.find? ((fun t : Timer => decide (t.addr = a)) ∘ s.value) with _ | b
    · exact absurd (decide_eq_true rfl) (List.find?_eq_none.mp hf a hmem)
    · have hb := List.find?_some hf
      rw [show b = a from of_decide_eq_true hb]
  rw [hfind]
  rfl

theorem Shows.find_dead (h : Shows s m) (hv : s.Valid []) (hcb : (s.object a).cb = none) :
    m.timers.find? (·.addr = a) = none := by
  rw [h.timers]
  refine List.find?_eq_none.mpr fun t ht => ?_
  obtain ⟨b, hb, rfl⟩ := List.mem_map.mp ht
  intro hba
  obtain rfl : b = a := of_decide_eq_true hba
  exact hv.not_mem hcb hb

/-! ### The operations -/

theorem Shows.set (h : Shows s m) (ha : a ∉ s.timers) : Shows (s.set a o) m where
  timers := by
    rw [h.timers, set_timers]
    refine List.map_congr_left fun b hb => (value_set_of_ne ?_).symm
    rintro rfl
    exact ha hb
  tickled := h.tickled
  previouseTime := h.previouseTime

theorem Shows.insert (h : Shows s m) : Shows (s.insert a) (m.insert (s.value a)) where
  timers := by
    show (s.value a).insertInto m.timers = _
    rw [h.timers]
    exact (map_insert s.timers).symm
  tickled := h.tickled
  previouseTime := h.previouseTime

/-- The place found is the first exactly when the value is in front. -/
theorem Shows.addTimer (h : Shows s m) (hv : s.Valid (a :: out)) :
    Shows (s.insertTimer a).2 (m.addTimer (s.value a)).2 ∧ (s.insertTimer a).1 = (m.addTimer (s.value a)).1 := by
  have hnot : a ∉ s.timers := fun hmem => ((hv.live a).mp hmem).2 List.mem_cons_self
  have hfront := OrderedSet.head_insert hv.sorted fun b hb => before_total s.object (show a ≠ b from fun e => hnot (e ▸ hb))
  have hhead : (m.insert (s.value a)).timers.head? = some (s.value a) ↔
      (OrderedSet.insert (before s.object) s.timers a).2 = 0 := by
    rw [h.insert.timers, ← hfront, List.head?_map]
    show Option.map s.value (OrderedSet.insert (before s.object) s.timers a).1.head? = some (s.value a) ↔ _
    constructor
    · intro he
      obtain ⟨b, hb, hvalue⟩ := Option.map_eq_some_iff.mp he
      rw [hb, show b = a from congrArg Timer.addr hvalue]
    · intro he
      rw [he]
      rfl
  have hflag : (s.insertTimer a).1 = (m.addTimer (s.value a)).1 := by
    unfold insertTimer TimerManager.addTimer
    refine decide_eq_decide.mpr (and_congr hhead.symm ?_)
    show s.tickled = false ↔ m.tickled = false
    rw [h.tickled]
  refine ⟨⟨h.insert.timers, ?_, h.previouseTime⟩, hflag⟩
  show (m.tickled || (m.addTimer (s.value a)).1) = (s.tickled || (s.insertTimer a).1)
  rw [hflag, h.tickled]

theorem Shows.erase (h : Shows s m) (hv : s.Valid out) (hfind : s.find a = some it) (ha : a ∈ s.timers) :
    Shows { s with timers := s.timers.eraseIdx it } (m.erase a) := by
  obtain ⟨i, hi, hget⟩ := hv.find ha
  obtain rfl : i = it := Option.some.inj (hi.symm.trans hfind)
  obtain ⟨hlt, hget⟩ := List.getElem?_eq_some_iff.mp hget
  have herase : s.timers.eraseIdx i = s.timers.filter fun b => b ≠ a := by
    rw [← hv.nodup.erase_getElem i hlt, hget, hv.nodup.erase_eq_filter]
    exact List.filter_congr fun b _ => by rw [decide_not, bne, beq_eq_decide]
  refine ⟨?_, h.tickled, h.previouseTime⟩
  show m.timers.filter (fun t => decide (t.addr ≠ a)) = (s.timers.eraseIdx i).map s.value
  rw [h.timers, List.filter_map, herase]
  rfl

theorem Shows.erase_dead (h : Shows s m) (ha : a ∉ s.timers) : Shows s (m.erase a) := by
  refine ⟨?_, h.tickled, h.previouseTime⟩
  rw [← h.timers]
  refine List.filter_eq_self.mpr fun t ht => ?_
  rw [h.timers] at ht
  obtain ⟨b, hb, rfl⟩ := List.mem_map.mp ht
  refine decide_eq_true ?_
  rintro rfl
  exact ha hb

/-- One turn of the loop over the expired timers. -/
theorem Shows.rearmOne (now : Nat) (h : Shows s m) (hv : s.Valid (a :: out)) : Shows (rearmOne now s a)
    (if (s.value a).recurring then m.insert { s.value a with next := wrap64 (now + (s.value a).ms) } else m) := by
  have hnot : a ∉ s.timers := fun hmem => ((hv.live a).mp hmem).2 List.mem_cons_self
  unfold TimerObjects.rearmOne
  by_cases hrec : (s.object a).recurring = true
  · rw [if_pos hrec, if_pos (show (s.value a).recurring = true from hrec)]
    have hset := (h.set (o := { s.object a with next := wrap64 (now + (s.object a).ms) }) hnot).insert (a := a)
    rwa [value_set_self] at hset
  · rw [if_neg hrec, if_neg (show ¬(s.value a).recurring = true from hrec)]
    exact h.set hnot

theorem rearmOne_value_of_ne (h : b ≠ a) : (rearmOne now s a).value b = s.value b := by
  unfold value
  rw [rearmOne_object_of_ne h]

theorem Shows.rearm (h : Shows s m) (hv : s.Valid out) (hlive : ∀ a ∈ out, (s.object a).cb.isSome) (hnodup : out.Nodup) :
    Shows (rearm now out s).2 (((out.map s.value).filter (·.recurring)).foldl
      (fun m t => m.insert { t with next := wrap64 (now + t.ms) }) m) := by
  induction out generalizing s m with
  | nil => exact h
  | cons a out ih =>
    obtain ⟨ha, hnodup⟩ := List.nodup_cons.mp hnodup
    have hne : ∀ b ∈ out, b ≠ a := fun b hb e => ha (e ▸ hb)
    have hvalues : out.map (TimerObjects.rearmOne now s a).value = out.map s.value :=
      List.map_congr_left fun b hb => rearmOne_value_of_ne (hne b hb)
    have hrest := ih (h.rearmOne now hv) (hv.rearmOne (hlive a List.mem_cons_self) ha) (fun b hb => by
      rw [rearmOne_object_of_ne (hne b hb)]
      exact hlive b (List.mem_cons_of_mem a hb)) hnodup
    rw [hvalues] at hrest
    rw [rearm_cons, List.map_cons, List.filter_cons]
    by_cases hrec : (s.value a).recurring = true
    · rw [if_pos hrec] at hrest ⊢
      exact hrest
    · rw [if_neg hrec] at hrest ⊢
      exact hrest

/-- The first value that is not due stops both. -/
theorem Shows.due (h : Shows s m) : (∃ first ∈ m.timers.head?, first.next > now) ↔
    ∃ first ∈ s.timers.head?, (s.object first).next > now := by
  rw [h.timers]
  cases s.timers with
  | nil => simp
  | cons a l =>
    simp only [List.map_cons, List.head?_cons, Option.mem_some_iff, exists_eq_left']
    rfl

/-- The values that expire are those of the pointers that expire. -/
theorem Shows.expired (probe : Nat) (h : Shows s m) : (m.timers.takeWhile fun t => ¬(s.value probe).before t) =
    (s.timers.take (OrderedSet.upperBound (before s.object) s.timers probe)).map s.value := by
  unfold OrderedSet.upperBound
  rw [h.timers, List.takeWhile_map, List.takeWhile_eq_take_findIdx_not]
  refine congrArg (fun i => (s.timers.take i).map s.value) (congrArg (s.timers.findIdx ·) (funext fun b => ?_))
  show (!decide ¬(s.value probe).before (s.value b)) = decide (before s.object probe b)
  rw [decide_not, Bool.not_not]
  exact decide_eq_decide.mpr before_value

theorem Shows.expired_eq (h : Shows s m) (hnot : probe ∉ s.timers) (rollover : Bool) :
    (if rollover then s.timers.length else
      OrderedSet.upperBound (before (s.set probe ⟨false, 0, now, none⟩).object) s.timers probe) ≤ s.timers.length ∧
    (if rollover then m.timers else m.timers.takeWhile fun t =>
      ¬({ addr := probe, recurring := false, ms := 0, next := now } : Timer).before t) =
      (s.timers.take (if rollover then s.timers.length else
        OrderedSet.upperBound (before (s.set probe ⟨false, 0, now, none⟩).object) s.timers probe)).map s.value := by
  cases rollover with
  | true =>
    refine ⟨Nat.le_refl _, ?_⟩
    rw [if_pos rfl, if_pos rfl, List.take_length, h.timers]
  | false =>
    refine ⟨List.findIdx_le_length, ?_⟩
    have hset : Shows (s.set probe ⟨false, 0, now, none⟩) m := h.set hnot
    have hexpired := hset.expired probe
    rw [value_set_self] at hexpired
    rw [if_neg Bool.false_ne_true, if_neg Bool.false_ne_true, hexpired]
    refine List.map_congr_left fun b hb => value_set_of_ne ?_
    rintro rfl
    exact hnot (List.mem_of_mem_take hb)

/-- The first timers leave both sets, and those that recur come back. -/
theorem Shows.fire (h : Shows s m) (hv : s.Valid []) (hprobe : (s.object probe).cb = none)
    (sorted : (m.timers.drop it).Pairwise Timer.before) :
    Shows (TimerObjects.rearm now (s.timers.take it)
        { s.set probe ⟨false, 0, now, none⟩ with timers := s.timers.drop it, previouseTime := now }).2
      ((((s.timers.take it).map s.value).filter (·.recurring)).foldl
        (fun m t => m.insert { t with next := wrap64 (now + t.ms) }) ⟨m.timers.drop it, m.tickled, now, sorted⟩) ∧
    (TimerObjects.rearm now (s.timers.take it)
      { s.set probe ⟨false, 0, now, none⟩ with timers := s.timers.drop it, previouseTime := now }).1 =
        ((s.timers.take it).map s.value).map fun t => (s.object t.addr).cb := by
  have hnot := hv.not_mem hprobe
  have hne : ∀ b ∈ s.timers.take it, b ≠ probe := by
    rintro b hb rfl
    exact hnot (List.mem_of_mem_take hb)
  have hset : (s.set probe ⟨false, 0, now, none⟩).Valid [] := (hv.set hnot).dead (by simp)
  have hshows : Shows (s.set probe ⟨false, 0, now, none⟩) m := h.set hnot
  have hnodup : (s.timers.take it).Nodup := hv.nodup.sublist (List.take_sublist ..)
  have hout := (hset.split it).of_eq (t := { s.set probe ⟨false, 0, now, none⟩ with
    timers := s.timers.drop it, previouseTime := now }) rfl rfl
  have hvalues : (s.timers.take it).map (s.set probe ⟨false, 0, now, none⟩).value = (s.timers.take it).map s.value :=
    List.map_congr_left fun b hb => value_set_of_ne (hne b hb)
  have hdrop : Shows { s.set probe ⟨false, 0, now, none⟩ with timers := s.timers.drop it, previouseTime := now }
      ⟨m.timers.drop it, m.tickled, now, sorted⟩ := by
    refine ⟨?_, h.tickled, rfl⟩
    show m.timers.drop it = (s.timers.drop it).map (s.set probe ⟨false, 0, now, none⟩).value
    rw [hshows.timers, List.map_drop]
    rfl
  constructor
  · rw [← hvalues]
    exact hdrop.rearm hout (fun a ha => ((hset.live a).mp (List.mem_of_mem_take ha)).1) hnodup
  · rw [rearm_cbs hnodup, List.map_map]
    refine List.map_congr_left fun a ha => ?_
    dsimp only
    rw [set_object_of_ne (hne a ha)]
    rfl

/-- The same timers expire, and the callbacks are those of the values handed out. -/
theorem Shows.listExpiredCb (h : Shows s m) (hv : s.Valid []) (hprobe : (s.object probe).cb = none) :
    Shows (s.listExpiredCb probe now).2 (m.listExpiredCb probe now).2 ∧
    (s.listExpiredCb probe now).1 = (m.listExpiredCb probe now).1.map fun t => (s.object t.addr).cb := by
  have hnot := hv.not_mem hprobe
  have hempty : m.timers = [] ↔ s.timers = [] := by rw [h.timers, List.map_eq_nil_iff]
  unfold TimerObjects.listExpiredCb TimerManager.listExpiredCb
  by_cases hs : s.timers = []
  · rw [if_pos hs, if_pos (hempty.mpr hs)]
    exact ⟨h, rfl⟩
  · rw [if_neg hs, if_neg (mt hempty.mp hs)]
    unfold detectClockRollover TimerManager.detectClockRollover
    rw [h.previouseTime]
    dsimp only
    generalize decide (now < s.previouseTime ∧ now < sub64 s.previouseTime (60 * 60 * 1000)) = rollover
    by_cases hdue : rollover = false ∧ ∃ first ∈ s.timers.head?, (s.object first).next > now
    · rw [if_pos hdue, if_pos (hdue.imp_right h.due.mpr)]
      exact ⟨⟨h.timers, h.tickled, rfl⟩, rfl⟩
    · rw [if_neg hdue, if_neg (mt (And.imp_right h.due.mp) hdue)]
      obtain ⟨it, hit, hle, hexpired⟩ : ∃ it, (if rollover then s.timers.length else OrderedSet.upperBound
          (before (s.set probe ⟨false, 0, now, none⟩).object) s.timers probe) = it ∧ it ≤ s.timers.length ∧
          (if rollover then m.timers else m.timers.takeWhile fun t =>
            ¬({ addr := probe, recurring := false, ms := 0, next := now } : Timer).before t) =
              (s.timers.take it).map s.value := ⟨_, rfl, h.expired_eq (hv.not_mem hprobe) rollover⟩
      have hlen : (m.timers.drop ((s.timers.take it).map s.value).length) = m.timers.drop it := by
        rw [List.length_map, List.length_take, Nat.min_eq_left hle]
      simp only [hexpired, hlen]
      subst hit
      exact h.fire hv hprobe m.sorted.drop

/-- A timer that is taken out, changed and put back is a new value. -/
theorem Shows.change (h : Shows s m) (hv : s.Valid []) (hcb : (s.object a).cb.isSome) (hfind : s.find a = some it) :
    Shows (TimerObjects.set { s with timers := s.timers.eraseIdx it } a o) (m.erase a) ∧
      (TimerObjects.set { s with timers := s.timers.eraseIdx it } a o).Valid [a] := by
  have hmem : a ∈ s.timers := (hv.live a).mpr ⟨hcb, List.not_mem_nil⟩
  obtain ⟨i, hi, hout⟩ := hv.erase hmem
  obtain rfl : i = it := Option.some.inj (hi.symm.trans hfind)
  have hnot : a ∉ s.timers.eraseIdx i := fun hin => ((hout.live a).mp hin).2 List.mem_cons_self
  exact ⟨(h.erase hv hi hmem).set hnot, hout.set_out o⟩

theorem Shows.cancel {r : Bool × TimerObjects Cb} (h : Shows s m) (hv : s.Valid []) (hc : s.cancel a = some r) :
    Shows r.2 (m.erase a) := by
  rcases hcb : (s.object a).cb with _ | cb
  · rw [cancel_dead hcb] at hc
    obtain rfl := Option.some.inj hc
    exact h.erase_dead (hv.not_mem hcb)
  · have hlive : (s.object a).cb.isSome := by
      rw [hcb]
      rfl
    obtain ⟨it, hfind, -, heq⟩ := cancel_live hv hlive
    rw [heq] at hc
    obtain rfl := Option.some.inj hc
    exact (h.change hv hlive hfind).1

theorem Shows.refresh (h : Shows s m) (hv : s.Valid []) : Shows (s.refresh a now).2 (m.refresh a now) := by
  unfold TimerManager.refresh
  rcases hcb : (s.object a).cb with _ | cb
  · rw [refresh_dead hcb, h.find_dead hv hcb]
    exact h
  · have hlive : (s.object a).cb.isSome := by
      rw [hcb]
      rfl
    obtain ⟨it, hfind, heq, -⟩ := refresh_live now hv hlive
    rw [heq, h.find_live hv hlive]
    have hchange := (h.change (o := { s.object a with next := wrap64 (now + (s.object a).ms) }) hv hlive hfind).1.insert (a := a)
    rwa [value_set_self] at hchange

theorem Shows.reset {ms : Nat} {fromNow : Bool} (h : Shows s m) (hv : s.Valid []) :
    Shows (s.reset a now ms fromNow).2.2 (m.reset a now ms fromNow) := by
  unfold TimerManager.reset
  rcases hcb : (s.object a).cb with _ | cb
  · rw [reset_dead hcb, h.find_dead hv hcb]
    exact h
  · have hlive : (s.object a).cb.isSome := by
      rw [hcb]
      rfl
    rw [h.find_live hv hlive]
    dsimp only
    by_cases hms : ms = (s.object a).ms ∧ fromNow = false
    · rw [if_pos (show ms = (s.value a).ms ∧ fromNow = false from hms)]
      unfold TimerObjects.reset
      rwa [if_pos hms]
    · rw [if_neg (show ¬(ms = (s.value a).ms ∧ fromNow = false) from hms)]
      obtain ⟨it, hfind, heq, -⟩ := reset_live now hv hlive hms
      obtain ⟨hshows, hout⟩ := h.change
        (o := { s.object a with ms := ms, next := wrap64 (s.resetStart a now fromNow + ms) }) hv hlive hfind
      have hchange := (hshows.addTimer hout).1
      rw [value_set_self] at hchange
      rw [heq]
      exact hchange

theorem Shows.step {act : Act Cb} (h : Shows s m) (hv : s.Valid []) (hok : s.Ok act) (hs : s.step act = some t) :
    Shows t (m.call act) := by
  cases act with
  | addTimer a now ms cb recurring =>
    obtain rfl := Option.some.inj hs
    have hnot := hv.not_mem hok.1
    have hadd := ((h.set (o := ⟨recurring, ms, wrap64 (now + ms), cb⟩) hnot).addTimer (hv.set hnot)).1
    rwa [value_set_self] at hadd
  | cancel a =>
    obtain ⟨r, hr, rfl⟩ := Option.map_eq_some_iff.mp hs
    exact h.cancel hv hr
  | refresh a now =>
    obtain rfl := Option.some.inj hs
    exact h.refresh hv
  | reset a now ms fromNow =>
    obtain rfl := Option.some.inj hs
    exact h.reset hv
  | listExpiredCb probe now =>
    obtain rfl := Option.some.inj hs
    exact (h.listExpiredCb hv hok).1

/-- A run of the timer objects is a run of the list of values. -/
theorem reach_shows (h : Reach step Ok (TimerObjects.new now : TimerObjects Cb) s) :
    ∃ m, Reach (fun m act => some (m.call act)) (fun _ (_ : Act Cb) => True) (TimerManager.new now) m ∧
      s.Valid [] ∧ Shows s m :=
  h.simulation (R := fun s m => s.Valid [] ∧ Shows s m) ⟨.new, .new⟩ fun _ _ _ m hR hok hs =>
    ⟨m.call _, trivial, rfl, hR.1.step hok hs, hR.2.step hR.1 hok hs⟩

/-- What the loop of the scheduler reads of the values is what the objects say: the earliest due time, and whose
    callbacks are handed out. -/
theorem reach_view (h : Reach step Ok (TimerObjects.new now : TimerObjects Cb) s) : ∃ m : TimerManager,
    Reach (fun m act => some (m.call act)) (fun _ (_ : Act Cb) => True) (TimerManager.new now) m ∧
    m.timers.map (·.addr) = s.timers ∧ (∀ t ∈ m.timers, t.next = (s.object t.addr).next ∧ (s.object t.addr).cb.isSome) ∧
    ∀ probe now, (s.object probe).cb = none →
      (s.listExpiredCb probe now).1 = (m.listExpiredCb probe now).1.map fun t => (s.object t.addr).cb := by
  obtain ⟨m, hreach, hv, hshows⟩ := reach_shows h
  refine ⟨m, hreach, ?_, fun t ht => ?_, fun probe now hprobe => (hshows.listExpiredCb hv hprobe).2⟩
  · rw [hshows.timers, List.map_map]
    exact List.map_id _
  · rw [hshows.timers] at ht
    obtain ⟨a, ha, rfl⟩ := List.mem_map.mp ht
    exact ⟨rfl, ((hv.live a).mp ha).1⟩

end TimerObjects
end MyHttp
