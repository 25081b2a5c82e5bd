import MyHttp.Config.FromString
import MyHttp.Lib.Run
import Mathlib.Data.List.Nodup

/-! `fromString` does all or nothing unless a listener throws: the listeners up to that one have been told a value that
    the variable does not get. -/

namespace MyHttp
namespace ConfigValue

open Lib.CString Lib.Run

variable {α : Type} {throws : Nat → α → α → Bool} {old v : α} {keys : List Nat}

/-! ### The loop -/

/-- Where no listener throws, each of them is called, in order. -/
theorem notify_quiet (h : ∀ key ∈ keys, throws key old v = false) :
    notify throws old v keys = (keys.map fun key => ⟨key, old, v, old⟩, true) := by
  induction keys with
  | nil => rfl
  | cons key rest ih =>
    rw [notify, if_neg (by rw [h key List.mem_cons_self]; decide), ih fun k hk => h k (List.mem_cons_of_mem key hk)]
    rfl

/-- A listener that throws ends the loop, and somebody has been called. -/
theorem notify_thrown {key : Nat} (hkey : key ∈ keys) (hthrows : throws key old v = true) :
    (notify throws old v keys).2 = false ∧ (notify throws old v keys).1 ≠ [] := by
  induction keys with
  | nil => cases hkey
  | cons k rest ih =>
    rw [notify]
    by_cases hk : throws k old v
    · rw [if_pos hk]
      exact ⟨rfl, List.cons_ne_nil _ _⟩
    · rw [if_neg hk]
      have hrest : key ∈ rest := by
        rcases List.mem_cons.mp hkey with rfl | hrest
        · exact absurd hthrows hk
        · exact hrest
      exact ⟨(ih hrest).1, List.cons_ne_nil _ _⟩

/-! ### The call -/

variable [DecidableEq α] {fromStr : Bytes → Option α} {s : ConfigValue α} {val : Bytes}

theorem setValue_same (throws : Nat → α → α → Bool) (h : v = s.val) : s.setValue throws v = (true, [], s) := if_pos h

theorem setValue_quiet (hne : v ≠ s.val) (h : ∀ key ∈ s.cbs, throws key s.val v = false) :
    s.setValue throws v = (true, s.cbs.map fun key => ⟨key, s.val, v, s.val⟩, { s with val := v }) := by
  rw [setValue, if_neg hne, notify_quiet h]
  rfl

theorem setValue_thrown {key : Nat} (hne : v ≠ s.val) (hkey : key ∈ s.cbs) (hthrows : throws key s.val v = true) :
    (s.setValue throws v).1 = false ∧ (s.setValue throws v).2.1 ≠ [] := by
  rw [setValue, if_neg hne]
  exact notify_thrown hkey hthrows

/-! ### Among threads -/

section Threads

open ConfigVar

variable {n : Nat} {t : ConfigVar α n} {i : Fin n}

/-- A thread has gone through its listeners, and nothing else has changed. -/
structure Notified (i : Fin n) (v : α) (keys : List Nat) (t u : ConfigVar α n) : Prop where
  val : u.val = t.val
  cbs : u.cbs = t.cbs
  others : ∀ j, j ≠ i → u.threads j = t.threads j
  pc : ∃ told, u.threads i = .notifying ⟨v, [], told⟩
  told : ∀ key ∈ keys, u.last key = some v
  kept : ∀ key, t.last key = some v → u.last key = some v

/-- One step for each listener. -/
theorem reach_notified {told : List α} (hpc : t.threads i = .notifying ⟨v, keys, told⟩) :
    ∃ u, Reach step (fun _ _ => True) t u ∧ Notified i v keys t u := by
  induction keys generalizing t told with
  | nil => exact ⟨t, .start, rfl, rfl, fun _ _ => rfl, ⟨told, hpc⟩, fun _ h => absurd h List.not_mem_nil, fun _ h => h⟩
  | cons key rest ih =>
    let t' : ConfigVar α n :=
      { t with last := Function.update t.last key (some v) }.goto i (.notifying ⟨v, rest, told ++ [t.val]⟩)
    have hstep : t.step (.run i) = some t' := by
      show t.run i (t.threads i) = some t'
      rw [hpc]
      rfl
    obtain ⟨u, hreach, hu⟩ := ih (t := t') (Function.update_self ..)
    have hlast : t'.last key = some v := Function.update_self ..
    refine ⟨u, (Reach.next .start trivial hstep).trans hreach, hu.val, hu.cbs, fun j hj => ?_, hu.pc, fun k hk => ?_,
      fun k hk => hu.kept k ?_⟩
    · exact (hu.others j hj).trans (Function.update_of_ne hj ..)
    · rcases List.mem_cons.mp hk with rfl | hk
      · exact hu.kept _ hlast
      · exact hu.told k hk
    · by_cases hkey : k = key
      · rw [hkey, hlast]
      · exact (Function.update_of_ne hkey ..).trans hk

/-- What `setValue` does in one thread, while no other one reads, is what the sequential one does when no listener
    throws. -/
theorem setValue_run (s : ConfigValue α) (hval : t.val = s.val) (hcbs : t.cbs = s.cbs) (hout : t.threads i = .out)
    (hfree : ∀ j, j ≠ i → reading (t.threads j) = false) (v : α) :
    ∃ u, Reach step (fun _ _ => True) t u ∧ u.threads i = .out ∧ u.cbs = s.cbs ∧
      u.val = (s.setValue (fun _ _ _ => false) v).2.2.val ∧
      ∀ notice ∈ (s.setValue (fun _ _ _ => false) v).2.1, u.last notice.key = some notice.newValue := by
  let t₁ := t.goto i (.called v)
  have hpc₁ : t₁.threads i = .called v := Function.update_self ..
  have hcall : t.step (.setValue i v) = some t₁ := if_pos hout
  have hrun : t₁.step (.run i) = t₁.run i (.called v) := congrArg (t₁.run i) hpc₁
  by_cases hsame : v = s.val
  · have hback : t₁.step (.run i) = some (t₁.goto i .out) := by
      rw [hrun]
      exact if_pos (hsame.trans hval.symm)
    rw [setValue_same _ hsame]
    exact ⟨_, (Reach.next .start trivial hcall).next trivial hback, Function.update_self .., hcbs, hval,
      fun _ h => absurd h List.not_mem_nil⟩
  · let t₂ := t₁.goto i (.notifying ⟨v, t.cbs, []⟩)
    have hnotify : t₁.step (.run i) = some t₂ := by
      rw [hrun]
      exact if_neg fun heq => hsame (heq.trans hval)
    obtain ⟨t₃, hreach, hnotified⟩ := reach_notified (t := t₂) (Function.update_self ..)
    obtain ⟨told, hpc₃⟩ := hnotified.pc
    let t₄ := t₃.goto i (.assigning ⟨v, [], told⟩)
    have hdone : t₃.step (.run i) = some t₄ := congrArg (t₃.run i) hpc₃
    have hothers : ∀ j, j ≠ i → t₃.threads j = t.threads j := fun j hj =>
      (hnotified.others j hj).trans ((Function.update_of_ne hj ..).trans (Function.update_of_ne hj ..))
    have hpc₄ : t₄.threads i = .assigning ⟨v, [], told⟩ := Function.update_self ..
    have hfree₄ : t₄.Free := by
      intro j
      by_cases hj : j = i
      · rw [hj, hpc₄]
        rfl
      · have hsame : t₄.threads j = t.threads j := (Function.update_of_ne hj ..).trans (hothers j hj)
        rw [hsame]
        exact hfree j hj
    let change : Change α := ⟨told, t₄.val, v⟩
    let t₅ := { t₄ with val := v, changes := t₄.changes ++ [change] }.goto i .out
    have hassign : t₄.step (.run i) = some t₅ := by
      show t₄.run i (t₄.threads i) = some t₅
      rw [hpc₄]
      exact if_pos hfree₄
    rw [setValue_quiet hsame fun _ _ => rfl]
    refine ⟨t₅, ?_, Function.update_self .., hnotified.cbs.trans hcbs, rfl, fun notice hnotice => ?_⟩
    · exact ((((Reach.next .start trivial hcall).next trivial hnotify).trans hreach).next trivial hdone).next trivial hassign
    · obtain ⟨key, hkey, rfl⟩ := List.mem_map.mp hnotice
      exact hnotified.told key (hcbs ▸ hkey)

end Threads

/-- What `fromString` returns is `false` where nothing has happened; and `true` where the variable has the value that was
    read, and, if that is a new one, each listener was called once with the old and the new value, before it was set. -/
structure AllOrNothing (fromStr : Bytes → Option α) (s : ConfigValue α) (val : Bytes)
    (r : Bool × List (Notice α) × ConfigValue α) : Prop where
  nothing : r.1 = false → r.2.2.val = s.val ∧ r.2.1 = []
  all : r.1 = true → ∃ v, fromStr val = some v ∧ r.2.2.val = v ∧
    (v ≠ s.val → (∀ key ∈ s.cbs, (r.2.1.map (·.key)).count key = 1) ∧
      ∀ n ∈ r.2.1, n.key ∈ s.cbs ∧ n.oldValue = s.val ∧ n.newValue = v ∧ n.val = s.val)

/-- `fromString` does all or nothing exactly when there is nothing to read, or nothing new, or no listener throws. -/
theorem allOrNothing_iff (fromStr : Bytes → Option α) (throws : Nat → α → α → Bool) (s : ConfigValue α) (val : Bytes) :
    AllOrNothing fromStr s val (s.fromString fromStr throws val) ↔
      ∀ v, fromStr val = some v → v = s.val ∨ ∀ key ∈ s.cbs, throws key s.val v = false := by
  unfold fromString
  cases hread : fromStr val with
  | none => exact iff_of_true ⟨fun _ => ⟨rfl, rfl⟩, nofun⟩ nofun
  | some v =>
    dsimp only
    constructor
    · rintro h v' ⟨⟩
      by_contra hboth
      obtain ⟨hne, hsome⟩ := not_or.mp hboth
      push Not at hsome
      obtain ⟨key, hkey, hthrows⟩ := hsome
      obtain ⟨hfalse, htold⟩ := setValue_thrown hne hkey ((Bool.not_eq_false _).mp hthrows)
      exact htold (h.nothing hfalse).2
    · intro h
      by_cases hsame : v = s.val
      · rw [setValue_same throws hsame]
        exact ⟨nofun, fun _ => ⟨v, hread, hsame.symm, fun hne => absurd hsame hne⟩⟩
      · rw [setValue_quiet hsame ((h v rfl).resolve_left hsame)]
        refine ⟨nofun, fun _ => ⟨v, hread, rfl, fun _ => ⟨fun key hkey => ?_, fun n hn => ?_⟩⟩⟩
        · have hnodup : s.cbs.Nodup := s.sorted.imp Nat.ne_of_lt
          have hkeys : (s.cbs.map fun key => (⟨key, s.val, v, s.val⟩ : Notice α)).map (·.key) = s.cbs := by
            rw [List.map_map]
            exact List.map_id _
          dsimp only
          rw [hkeys]
          exact List.count_eq_one_of_mem hnodup hkey
        · obtain ⟨key, hkey, rfl⟩ := List.mem_map.mp hn
          exact ⟨hkey, rfl, rfl, rfl⟩

/-- The first listener has taken up the value when the second one throws. -/
theorem told_nothing_set : ¬∀ (fromStr : Bytes → Option Nat) throws s val,
    AllOrNothing fromStr s val (s.fromString fromStr throws val) := by
  intro h
  let s : ConfigValue Nat := ⟨0, [1, 2], by decide⟩
  have hnothing := (h (fun _ => some 1) (fun key _ _ => key = 2) s []).nothing rfl
  exact absurd hnothing.2 (List.cons_ne_nil _ _)

end ConfigValue
end MyHttp
