import MyHttp.Config
import MyHttp.Lib.Run
import Mathlib.Data.List.Nodup

/-! The listeners of a `ConfigVar` against the value it stores. Between the comparison of a `setValue` and its
    assignment no lock is held, so another `setValue` may compare with the same old value, and the assignments may come
    in the other order than the notifications. -/

namespace MyHttp

open Lib.Run

variable {α : Type}

/-- A change that a listener was or will be told of. -/
def Setting.Loud (c : Setting α) : Prop := c.rest ≠ [] ∨ c.told ≠ []

namespace ConfigVar

variable {n : Nat} {s t : ConfigVar α n} {i j : Fin n} {c d : Setting α} {v : α}

/-- While no `setValue` is in progress, a listener was last told the value that is stored; and the old values that
    listeners were told are the values that the assignments replaced. -/
structure Agrees (s : ConfigVar α n) : Prop where
  stored : (∀ i, s.threads i = .out) → ∀ id ∈ s.cbs, ∀ w, s.last id = some w → w = s.val
  before : ∀ c ∈ s.changes, ∀ old ∈ c.told, old = c.before

/-- The change that a thread is making: it has found a difference, and not assigned yet. -/
def setting : SetPc α → Option (Setting α)
  | .notifying c | .assigning c => some c
  | _ => none

/-- A comparison that finds a difference comes while no other thread is making a change; or no listener is there to be
    told of it, and none was told of the other change. -/
def Alone (s : ConfigVar α n) : ConfigAct α n → Prop
  | .run i =>
    match s.threads i with
    | .called v => v ≠ s.val → ∀ j, ∀ c ∈ setting (s.threads j), s.cbs = [] ∧ c.told = []
    | _ => True
  | _ => True

instance [DecidableEq α] (s : ConfigVar α n) (a : ConfigAct α n) : Decidable (s.Alone a) := by
  induction a using ConfigAct.casesOn with
  | run i =>
    dsimp only [Alone]
    induction s.threads i using SetPc.casesOn <;> infer_instance
  | _ => exact .isTrue trivial

/-! ### The invariant -/

/-- What holds between the changes being made, the value and the listeners. -/
structure Sound (s : ConfigVar α n) : Prop where
  keys : ∀ id ∈ s.cbs, id ≤ s.funId
  used : ∀ id w, s.last id = some w → id ≤ s.funId
  nodup : s.cbs.Nodup
  rest_nodup : ∀ i c, setting (s.threads i) = some c → c.rest.Nodup
  rest_mem : ∀ i c, setting (s.threads i) = some c → ∀ id ∈ c.rest, id ∈ s.cbs
  rest_nil : ∀ i c, setting (s.threads i) = some c → reading (s.threads i) = false → c.rest = []
  told : ∀ i c, setting (s.threads i) = some c → ∀ old ∈ c.told, old = s.val
  alone : ∀ i j c d, setting (s.threads i) = some c → setting (s.threads j) = some d → i ≠ j → ¬c.Loud
  waiting : ∀ i c, setting (s.threads i) = some c → c.Loud → ∀ id ∈ s.cbs, ∀ w, s.last id = some w →
    id ∈ c.rest → w = s.val
  notified : ∀ i c, setting (s.threads i) = some c → c.Loud → ∀ id ∈ s.cbs, ∀ w, s.last id = some w →
    id ∉ c.rest → w = c.value
  quiet : ∀ i c, setting (s.threads i) = some c → ¬c.Loud → ∀ id ∈ s.cbs, s.last id = none
  idle : (∀ i, setting (s.threads i) = none) → ∀ id ∈ s.cbs, ∀ w, s.last id = some w → w = s.val
  before : ∀ c ∈ s.changes, ∀ old ∈ c.told, old = c.before

theorem Sound.agrees (h : s.Sound) : s.Agrees where
  stored hout := h.idle fun i => by rw [hout i]; rfl
  before := h.before

theorem sound_init (n : Nat) (v : α) : (init n v).Sound where
  keys _ hid := nomatch hid
  used _ _ hid := nomatch hid
  nodup := List.nodup_nil
  rest_nodup _ _ hc := nomatch hc
  rest_mem _ _ hc := nomatch hc
  rest_nil _ _ hc := nomatch hc
  told _ _ hc := nomatch hc
  alone _ _ _ _ hc := nomatch hc
  waiting _ _ hc := nomatch hc
  notified _ _ hc := nomatch hc
  quiet _ _ hc := nomatch hc
  idle _ _ hid := nomatch hid
  before _ hc := nomatch hc

theorem goto_self (s : ConfigVar α n) (i : Fin n) (pc : SetPc α) : (s.goto i pc).threads i = pc := by
  simp only [goto, Function.update_self]

theorem goto_of_ne (s : ConfigVar α n) (pc : SetPc α) (h : j ≠ i) : (s.goto i pc).threads j = s.threads j := by
  simp only [goto, Function.update_of_ne h]

theorem setting_goto {pc : SetPc α} (h : setting ((s.goto i pc).threads j) = some c) :
    (j = i ∧ setting pc = some c) ∨ (j ≠ i ∧ setting (s.threads j) = some c) := by
  rcases eq_or_ne j i with rfl | hne
  · rw [goto_self] at h
    exact .inl ⟨rfl, h⟩
  · rw [goto_of_ne s pc hne] at h
    exact .inr ⟨hne, h⟩

theorem not_loud (hrest : c.rest = []) (htold : c.told = []) : ¬c.Loud := by
  rintro (h | h)
  · exact h hrest
  · exact h htold

theorem told_nil (h : ¬c.Loud) : c.told = [] := by
  by_contra htold
  exact h (.inr htold)

theorem Free.rest_nil (hfree : s.Free) (h : s.Sound) (hc : setting (s.threads i) = some c) : c.rest = [] :=
  h.rest_nil i c hc (hfree i)

/-! ### What a step keeps -/

/-- A thread moves on, and makes the same change as before or none. -/
theorem Sound.goto (h : s.Sound) {pc : SetPc α} (hsame : setting pc = setting (s.threads i))
    (hrest : ∀ c, setting pc = some c → reading pc = false → c.rest = []) : (s.goto i pc).Sound := by
  have hall : ∀ j, setting ((s.goto i pc).threads j) = setting (s.threads j) := by
    intro j
    rcases eq_or_ne j i with rfl | hne
    · rw [goto_self, hsame]
    · rw [goto_of_ne s pc hne]
  constructor
  case keys => exact h.keys
  case used => exact h.used
  case nodup => exact h.nodup
  case rest_nodup => exact fun j c hc => h.rest_nodup j c (hall j ▸ hc)
  case rest_mem => exact fun j c hc => h.rest_mem j c (hall j ▸ hc)
  case rest_nil =>
    intro j c hc hread
    rcases eq_or_ne j i with rfl | hne
    · rw [goto_self] at hc hread
      exact hrest c hc hread
    · rw [goto_of_ne s pc hne] at hc hread
      exact h.rest_nil j c hc hread
  case told => exact fun j c hc => h.told j c (hall j ▸ hc)
  case alone => exact fun j k c d hc hd => h.alone j k c d (hall j ▸ hc) (hall k ▸ hd)
  case waiting => exact fun j c hc => h.waiting j c (hall j ▸ hc)
  case notified => exact fun j c hc => h.notified j c (hall j ▸ hc)
  case quiet => exact fun j c hc => h.quiet j c (hall j ▸ hc)
  case idle => exact fun hnone => h.idle fun j => hall j ▸ hnone j
  case before => exact h.before

/-- The listeners change: each of them was there, or was told nothing yet. -/
theorem Sound.listeners (h : s.Sound) {cbs : List Nat} {funId : Nat} (hid : s.funId ≤ funId) (hnodup : cbs.Nodup)
    (hkeys : ∀ id ∈ cbs, id ≤ funId) (hrest : ∀ i c, setting (s.threads i) = some c → ∀ id ∈ c.rest, id ∈ cbs)
    (hold : ∀ id ∈ cbs, id ∈ s.cbs ∨ s.last id = none) : Sound { s with cbs, funId } := by
  have htold : ∀ id ∈ cbs, ∀ w, s.last id = some w → id ∈ s.cbs := by
    intro id hmem w hw
    rcases hold id hmem with hmem | hnone
    · exact hmem
    · rw [hnone] at hw
      cases hw
  constructor
  case keys => exact hkeys
  case used => exact fun id w hw => Nat.le_trans (h.used id w hw) hid
  case nodup => exact hnodup
  case rest_nodup => exact h.rest_nodup
  case rest_mem => exact hrest
  case rest_nil => exact h.rest_nil
  case told => exact h.told
  case alone => exact h.alone
  case waiting => exact fun i c hc hloud id hmem w hw => h.waiting i c hc hloud id (htold id hmem w hw) w hw
  case notified => exact fun i c hc hloud id hmem w hw => h.notified i c hc hloud id (htold id hmem w hw) w hw
  case quiet =>
    intro i c hc hquiet id hmem
    rcases hold id hmem with hmem | hnone
    · exact h.quiet i c hc hquiet id hmem
    · exact hnone
  case idle => exact fun hnone id hmem w hw => h.idle hnone id (htold id hmem w hw) w hw
  case before => exact h.before

/-- A comparison that finds a difference. -/
theorem Sound.compare (h : s.Sound) (hpc : s.threads i = .called v)
    (halone : ∀ j c, setting (s.threads j) = some c → s.cbs = [] ∧ c.told = []) :
    (s.goto i (.notifying ⟨v, s.cbs, []⟩)).Sound := by
  have hnone : setting (s.threads i) = none := by rw [hpc]; rfl
  -- the other changes, if there are any, are heard by nobody
  have hothers : ∀ j c, setting (s.threads j) = some c → s.cbs = [] ∧ ¬c.Loud := by
    intro j c hc
    obtain ⟨hcbs, htold⟩ := halone j c hc
    refine ⟨hcbs, not_loud (List.eq_nil_iff_forall_not_mem.mpr fun id hid => ?_) htold⟩
    have hmem := h.rest_mem j c hc id hid
    rw [hcbs] at hmem
    cases hmem
  have hcases : ∀ j c, setting ((s.goto i (.notifying ⟨v, s.cbs, []⟩)).threads j) = some c →
      (j = i ∧ c = ⟨v, s.cbs, []⟩) ∨ (j ≠ i ∧ setting (s.threads j) = some c) := by
    intro j c hc
    rcases setting_goto hc with ⟨hj, hc⟩ | hother
    · exact .inl ⟨hj, (Option.some.inj hc).symm⟩
    · exact .inr hother
  constructor
  case keys => exact h.keys
  case used => exact h.used
  case nodup => exact h.nodup
  case rest_nodup =>
    intro j c hc
    rcases hcases j c hc with ⟨rfl, rfl⟩ | ⟨-, hc⟩
    · exact h.nodup
    · exact h.rest_nodup j c hc
  case rest_mem =>
    intro j c hc
    rcases hcases j c hc with ⟨rfl, rfl⟩ | ⟨-, hc⟩
    · exact fun id hid => hid
    · exact h.rest_mem j c hc
  case rest_nil =>
    intro j c hc hread
    rcases hcases j c hc with ⟨rfl, rfl⟩ | ⟨hne, hc⟩
    · rw [goto_self] at hread
      cases hread
    · rw [goto_of_ne s _ hne] at hread
      exact h.rest_nil j c hc hread
  case told =>
    intro j c hc
    rcases hcases j c hc with ⟨rfl, rfl⟩ | ⟨-, hc⟩
    · exact fun _ hold => nomatch hold
    · exact h.told j c hc
  case alone =>
    intro j k c d hc hd hne
    rcases hcases j c hc with ⟨rfl, rfl⟩ | ⟨-, hc⟩
    · rcases hcases k d hd with ⟨rfl, -⟩ | ⟨-, hd⟩
      · exact absurd rfl hne
      · exact not_loud (hothers k d hd).1 rfl
    · exact (hothers j c hc).2
  case waiting =>
    intro j c hc hloud id hid w hw hwait
    rcases hcases j c hc with ⟨rfl, rfl⟩ | ⟨-, hc⟩
    · refine h.idle (fun k => ?_) id hid w hw
      by_contra hk
      obtain ⟨d, hd⟩ := Option.ne_none_iff_exists'.mp hk
      exact not_loud (hothers k d hd).1 rfl hloud
    · exact absurd hloud (hothers j c hc).2
  case notified =>
    intro j c hc hloud id hid w hw hpast
    rcases hcases j c hc with ⟨rfl, rfl⟩ | ⟨-, hc⟩
    · exact absurd hid hpast
    · exact absurd hloud (hothers j c hc).2
  case quiet =>
    intro j c hc hquiet id hid
    rcases hcases j c hc with ⟨rfl, rfl⟩ | ⟨-, hc⟩
    · exact absurd (.inl (List.ne_nil_of_mem hid)) hquiet
    · exact h.quiet j c hc hquiet id hid
  case idle =>
    intro hidle
    have := hidle i
    rw [goto_self] at this
    cases this
  case before => exact h.before

/-- A listener is told, by the only change that is being made. -/
theorem Sound.notify (h : s.Sound) {id : Nat} {rest : List Nat} {told : List α}
    (hpc : s.threads i = .notifying ⟨v, id :: rest, told⟩) :
    ({ s with last := Function.update s.last id (some v) }.goto i (.notifying ⟨v, rest, told ++ [s.val]⟩)).Sound := by
  have hc : setting (s.threads i) = some ⟨v, id :: rest, told⟩ := by rw [hpc]; rfl
  have hloud : Setting.Loud ⟨v, id :: rest, told⟩ := .inl (List.cons_ne_nil _ _)
  have hnodup := List.nodup_cons.mp (h.rest_nodup i _ hc)
  have hmem : ∀ x ∈ id :: rest, x ∈ s.cbs := h.rest_mem i _ hc
  let s' : ConfigVar α n := { s with last := Function.update s.last id (some v) }
  have hlast : ∀ x, x ≠ id → s'.last x = s.last x := fun x hx => Function.update_of_ne hx _ _
  have hsame : s'.last id = some v := Function.update_self _ _ _
  have honly : ∀ j c, setting ((s'.goto i (.notifying ⟨v, rest, told ++ [s.val]⟩)).threads j) = some c →
      j = i ∧ c = ⟨v, rest, told ++ [s.val]⟩ := by
    intro j c hj
    rcases setting_goto hj with ⟨hji, hj⟩ | ⟨hne, hj⟩
    · exact ⟨hji, (Option.some.inj hj).symm⟩
    · exact absurd hloud (h.alone i j _ c hc hj hne.symm)
  constructor
  case keys => exact h.keys
  case used =>
    intro x w hw
    change s'.last x = some w at hw
    rcases eq_or_ne x id with rfl | hne
    · exact h.keys x (hmem x List.mem_cons_self)
    · exact h.used x w (hlast x hne ▸ hw)
  case nodup => exact h.nodup
  case rest_nodup =>
    intro j c hj
    obtain ⟨-, rfl⟩ := honly j c hj
    exact hnodup.2
  case rest_mem =>
    intro j c hj x hx
    obtain ⟨-, rfl⟩ := honly j c hj
    exact hmem x (List.mem_cons_of_mem id hx)
  case rest_nil =>
    intro j c hj hread
    obtain ⟨rfl, -⟩ := honly j c hj
    rw [goto_self] at hread
    cases hread
  case told =>
    intro j c hj old hold
    obtain ⟨-, rfl⟩ := honly j c hj
    rcases List.mem_append.mp hold with hold | hold
    · exact h.told i _ hc old hold
    · exact List.mem_singleton.mp hold
  case alone =>
    intro j k c d hj hk hne
    exact absurd ((honly j c hj).1.trans (honly k d hk).1.symm) hne
  case waiting =>
    intro j c hj _ x hx w hw hwait
    obtain ⟨-, rfl⟩ := honly j c hj
    have hne : x ≠ id := by
      rintro rfl
      exact hnodup.1 hwait
    exact h.waiting i _ hc hloud x hx w (hlast x hne ▸ hw) (List.mem_cons_of_mem id hwait)
  case notified =>
    intro j c hj _ x hx w hw hpast
    obtain ⟨-, rfl⟩ := honly j c hj
    change s'.last x = some w at hw
    rcases eq_or_ne x id with rfl | hne
    · exact (Option.some.inj (hsame.symm.trans hw)).symm
    · refine h.notified i _ hc hloud x hx w (hlast x hne ▸ hw) fun hin => ?_
      rcases List.mem_cons.mp hin with rfl | hin
      · exact hne rfl
      · exact hpast hin
  case quiet =>
    intro j c hj hquiet
    obtain ⟨-, rfl⟩ := honly j c hj
    exact absurd (.inr (List.append_ne_nil_of_right_ne_nil _ (List.cons_ne_nil _ _))) hquiet
  case idle =>
    intro hidle
    have hi := hidle i
    rw [goto_self] at hi
    cases hi
  case before => exact h.before

/-- The assignment. What was told is what is replaced; a listener that was told was told this value. -/
theorem Sound.assign (h : s.Sound) (hfree : s.Free) (hpc : s.threads i = .assigning c) :
    let change : Change α := ⟨c.told, s.val, c.value⟩
    ({ s with val := c.value, changes := s.changes ++ [change] }.goto i .out).Sound := by
  intro change
  have hc : setting (s.threads i) = some c := by rw [hpc]; rfl
  have hrest : c.rest = [] := hfree.rest_nil h hc
  let s' : ConfigVar α n := { s with val := c.value, changes := s.changes ++ [change] }
  -- whoever else makes a change makes it unheard
  have hcases : ∀ j d, setting ((s'.goto i .out).threads j) = some d →
      j ≠ i ∧ setting (s.threads j) = some d ∧ ¬d.Loud := by
    intro j d hd
    rcases setting_goto hd with ⟨-, hd⟩ | ⟨hne, hd⟩
    · cases hd
    · exact ⟨hne, hd, h.alone j i d c hd hc hne⟩
  constructor
  case keys => exact h.keys
  case used => exact h.used
  case nodup => exact h.nodup
  case rest_nodup => exact fun j d hd => h.rest_nodup j d (hcases j d hd).2.1
  case rest_mem => exact fun j d hd => h.rest_mem j d (hcases j d hd).2.1
  case rest_nil => exact fun j d hd _ => hfree.rest_nil h (hcases j d hd).2.1
  case told =>
    intro j d hd old hold
    rw [told_nil (hcases j d hd).2.2] at hold
    cases hold
  case alone => exact fun j k d e hd he hne => h.alone j k d e (hcases j d hd).2.1 (hcases k e he).2.1 hne
  case waiting => exact fun j d hd hloud => absurd hloud (hcases j d hd).2.2
  case notified => exact fun j d hd hloud => absurd hloud (hcases j d hd).2.2
  case quiet => exact fun j d hd => h.quiet j d (hcases j d hd).2.1
  case idle =>
    intro _ id hid w hw
    by_cases hloud : c.Loud
    · exact h.notified i c hc hloud id hid w hw (by rw [hrest]; exact List.not_mem_nil)
    · have hnone := h.quiet i c hc hloud id hid
      cases hnone.symm.trans hw
  case before =>
    intro x hx old hold
    rcases List.mem_append.mp hx with hx | hx
    · exact h.before x hx old hold
    · rw [List.mem_singleton.mp hx] at hold ⊢
      exact h.told i c hc old hold

variable [DecidableEq α]

theorem Sound.run (h : s.Sound) (halone : s.Alone (.run i)) (hs : s.run i (s.threads i) = some t) : t.Sound := by
  match hpc : s.threads i with
  | .out =>
    rw [hpc] at hs
    cases hs
  | .called v =>
    rw [hpc, ConfigVar.run] at hs
    split at hs
    · cases hs
      exact h.goto (by rw [hpc]; rfl) fun c hc => nomatch hc
    · rename_i hne
      cases hs
      simp only [Alone, hpc] at halone
      exact h.compare hpc fun j c hc => halone hne j c hc
  | .notifying ⟨v, id :: rest, told⟩ =>
    rw [hpc] at hs
    cases hs
    exact h.notify hpc
  | .notifying ⟨v, [], told⟩ =>
    rw [hpc] at hs
    cases hs
    exact h.goto (by rw [hpc]; rfl) fun c hc _ => by rw [← Option.some.inj hc]
  | .assigning c =>
    rw [hpc, ConfigVar.run] at hs
    split at hs
    · rename_i hfree
      cases hs
      exact h.assign hfree hpc
    · cases hs

theorem Sound.step {a : ConfigAct α n} (h : s.Sound) (halone : s.Alone a) (hs : s.step a = some t) : t.Sound := by
  cases a with
  | setValue i v =>
    simp only [ConfigVar.step] at hs
    split at hs
    · rename_i hpc
      cases hs
      exact h.goto (by rw [hpc]; rfl) fun c hc => nomatch hc
    · cases hs
  | run i => exact h.run halone hs
  | addListener =>
    simp only [ConfigVar.step] at hs
    split at hs
    · rename_i hfree
      cases hs
      have hnew : s.funId + 1 ∉ s.cbs := fun hid => absurd (h.keys _ hid) (by omega)
      refine h.listeners (Nat.le_succ _) ?_ ?_ ?_ ?_
      · exact List.nodup_append.mpr ⟨h.nodup, List.nodup_singleton _, fun x hx y hy => by
          rw [List.mem_singleton.mp hy]
          rintro rfl
          exact hnew hx⟩
      · intro id hid
        rcases List.mem_append.mp hid with hid | hid
        · exact Nat.le_succ_of_le (h.keys id hid)
        · exact Nat.le_of_eq (List.mem_singleton.mp hid)
      · intro i c hc id hid
        rw [hfree.rest_nil h hc] at hid
        cases hid
      · intro id hid
        rcases List.mem_append.mp hid with hid | hid
        · exact .inl hid
        · right
          by_contra hlast
          obtain ⟨w, hw⟩ := Option.ne_none_iff_exists'.mp hlast
          rw [List.mem_singleton.mp hid] at hw
          exact absurd (h.used _ w hw) (Nat.not_succ_le_self _)
    · cases hs
  | addElsewhere =>
    cases hs
    exact h.listeners (Nat.le_succ _) h.nodup (fun id hid => Nat.le_succ_of_le (h.keys id hid)) h.rest_mem
      fun id hid => .inl hid
  | delListener key =>
    simp only [ConfigVar.step] at hs
    split at hs
    · rename_i hfree
      cases hs
      refine h.listeners (Nat.le_refl _) (h.nodup.erase key) (fun id hid => h.keys id (List.mem_of_mem_erase hid)) ?_
        fun id hid => .inl (List.mem_of_mem_erase hid)
      intro i c hc id hid
      rw [hfree.rest_nil h hc] at hid
      cases hid
    · cases hs
  | clearListener =>
    simp only [ConfigVar.step] at hs
    split at hs
    · rename_i hfree
      cases hs
      refine h.listeners (Nat.le_refl _) List.nodup_nil (fun id hid => nomatch hid) ?_ fun id hid => nomatch hid
      intro i c hc id hid
      rw [hfree.rest_nil h hc] at hid
      cases hid
    · cases hs

/-- As long as no two changes overlap of which a listener is told, the listeners agree with the stored value. -/
theorem listeners_agree {v : α} (h : Reach step Alone (init n v) s) : s.Agrees :=
  (h.invariant (sound_init n v) fun _ _ _ hsound halone hs => hsound.step halone hs).agrees

/-- Two threads set the variable one after the other, with a listener. -/
theorem listeners_agree_twice :
    let s := (exec step Alone (init 2 0) [.addListener, .setValue 0 1, .run 0, .run 0, .run 0, .run 0,
      .setValue 1 2, .run 1, .run 1, .run 1, .run 1]).get (by decide +kernel)
    s.last 1 = some 2 ∧ s.val = 2 ∧ s.Agrees := by
  intro s
  have hreach : Reach step Alone (init 2 0) s := reach_of_exec (Option.some_get _).symm
  exact ⟨by decide +kernel, by decide +kernel, listeners_agree hreach⟩

/-- Two threads compare with the same old value; the listener hears of 1 and then of 2, and 1 is assigned last. -/
theorem listeners_disagree : ¬∀ (n : Nat) (v : Nat) (s : ConfigVar Nat n),
    Reach step (fun _ _ => True) (init n v) s → s.Agrees := by
  intro hclaim
  have hrun : (exec step (fun _ _ => True) (init 2 0) [.addListener, .setValue 0 1, .setValue 1 2, .run 0, .run 1,
      .run 0, .run 1, .run 0, .run 1, .run 1, .run 0]).map (fun s => (s.threads 0, s.threads 1, s.cbs, s.last 1, s.val)) =
        some (.out, .out, [1], some 2, 1) := by decide +kernel
  obtain ⟨s, hs, heq⟩ := Option.map_eq_some_iff.mp hrun
  simp only [Prod.mk.injEq] at heq
  obtain ⟨h0, h1, hcbs, hlast, hval⟩ := heq
  have hout : ∀ i, s.threads i = .out := by
    intro i
    match i with
    | 0 => exact h0
    | 1 => exact h1
  have hagree := (hclaim 2 0 s (reach_of_exec hs)).stored hout 1 (by rw [hcbs]; exact List.mem_singleton_self _) 2 hlast
  rw [hval] at hagree
  cases hagree

end ConfigVar
end MyHttp
