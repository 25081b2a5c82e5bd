import Mathlib.Data.List.Pairwise
import Mathlib.Logic.Function.Basic

/-! Threads that take locks while they hold others. Where every thread takes them in the order of a rank, one of those that have
    something to do can always go on. -/

namespace Lib.Locks

universe u v w x
variable {ι : Type u} {L : Type v} {A : Type w} {σ : Type x}

inductive Instr (L : Type v) (A : Type w) where
  | lock (l : L)
  | unlock (l : L)
  /-- a step on what is shared, which says how the thread goes on -/
  | act (a : A)
deriving DecidableEq, Repr

structure Thread (L : Type v) (A : Type w) where
  held : List L
  prog : List (Instr L A)

structure State (ι : Type u) (L : Type v) (A : Type w) (σ : Type x) where
  shared : σ
  locked : L → Bool
  threads : ι → Thread L A

section Step

variable [DecidableEq ι] [DecidableEq L]

/-- The next instruction of a thread, which has to wait for a lock that is taken. -/
def step (run : σ → A → σ × List (Instr L A)) (s : State ι L A σ) (i : ι) : Option (State ι L A σ) :=
  match (s.threads i).prog with
  | [] => none
  | .lock l :: prog =>
    if s.locked l then none
    else some ⟨s.shared, Function.update s.locked l true, Function.update s.threads i ⟨l :: (s.threads i).held, prog⟩⟩
  | .unlock l :: prog =>
    some ⟨s.shared, Function.update s.locked l false, Function.update s.threads i ⟨(s.threads i).held.erase l, prog⟩⟩
  | .act a :: prog =>
    some ⟨(run s.shared a).1, s.locked, Function.update s.threads i ⟨(s.threads i).held, (run s.shared a).2 ++ prog⟩⟩

/-- A thread that has nothing to do begins with a program. -/
def call (s : State ι L A σ) (i : ι) (prog : List (Instr L A)) : Option (State ι L A σ) :=
  if (s.threads i).prog.isEmpty then some { s with threads := Function.update s.threads i ⟨(s.threads i).held, prog⟩ } else none

end Step

/-- A program that is in order for a thread that holds these locks, the last one first; `fits` says from which to which locks the
    rest of an action takes it. -/
inductive Ordered (rank : L → Nat) (fits : A → List L → List L → Prop) : List L → List (Instr L A) → Prop
  | nil : Ordered rank fits [] []
  | lock {held : List L} {l : L} {prog : List (Instr L A)} : (∀ h ∈ held, rank h < rank l) →
    Ordered rank fits (l :: held) prog → Ordered rank fits held (.lock l :: prog)
  | unlock {held : List L} {l : L} {prog : List (Instr L A)} :
    Ordered rank fits held prog → Ordered rank fits (l :: held) (.unlock l :: prog)
  | act {held held' : List L} {a : A} {prog : List (Instr L A)} : fits a held held' →
    Ordered rank fits held' prog → Ordered rank fits held (.act a :: prog)

variable {rank : L → Nat} {fits : A → List L → List L → Prop} {run : σ → A → σ × List (Instr L A)} {s t : State ι L A σ} {i j : ι}
  {prog : List (Instr L A)}

structure Sound (rank : L → Nat) (fits : A → List L → List L → Prop) (s : State ι L A σ) : Prop where
  ordered : ∀ i, Ordered rank fits (s.threads i).held (s.threads i).prog
  sorted : ∀ i, (s.threads i).held.Pairwise fun l l' => rank l' < rank l
  locked : ∀ l, s.locked l = true ↔ ∃ i, l ∈ (s.threads i).held
  exclusive : ∀ i j l, l ∈ (s.threads i).held → l ∈ (s.threads j).held → i = j

section Inversion

variable {held : List L} {l : L} {a : A}

theorem Ordered.of_lock (h : Ordered rank fits held (.lock l :: prog)) :
    (∀ h ∈ held, rank h < rank l) ∧ Ordered rank fits (l :: held) prog := by
  cases h with
  | lock hrank hrest => exact ⟨hrank, hrest⟩

theorem Ordered.of_unlock (h : Ordered rank fits held (.unlock l :: prog)) :
    ∃ rest, held = l :: rest ∧ Ordered rank fits rest prog := by
  cases h with
  | unlock hrest => exact ⟨_, rfl, hrest⟩

theorem Ordered.of_act (h : Ordered rank fits held (.act a :: prog)) :
    ∃ held', fits a held held' ∧ Ordered rank fits held' prog := by
  cases h with
  | act hfits hrest => exact ⟨_, hfits, hrest⟩

theorem Ordered.of_nil (h : Ordered rank fits held []) : held = [] := by
  cases h
  rfl

end Inversion

/-- A thread that is through with its program holds no lock. -/
theorem Sound.released (h : Sound rank fits s) (hi : (s.threads i).prog = []) : (s.threads i).held = [] :=
  (hi ▸ h.ordered i).of_nil

/-! ### What was read under a lock -/

section Guarded

variable {guards renews : A → L → Prop} {held : List L} {l : L} {a : A} {p q : List (Instr L A)}

/-- Behind this instruction nothing can rely on what was read under the lock before. -/
def Renews (renews : A → L → Prop) : Instr L A → L → Prop
  | .lock l', l => l = l'
  | .unlock _, _ => False
  | .act a, l => renews a l

/-- The actions that rely on a lock do so since before the thread has anything to do with that lock. -/
def Guarded (guards renews : A → L → Prop) : List (Instr L A) → Prop
  | [] => True
  | x :: prog => (∀ l, Renews renews x l → ∀ a, .act a ∈ prog → ¬guards a l) ∧ Guarded guards renews prog

/-- A lock that an action relies on is held. -/
theorem Ordered.holds (h : Ordered rank fits held p) (hguarded : Guarded guards renews p)
    (hneeds : ∀ a l held held', guards a l → fits a held held' → l ∈ held)
    (hshrinks : ∀ a held held', fits a held held' → ∀ l ∈ held', l ∈ held) (ha : .act a ∈ p) (hl : guards a l) : l ∈ held := by
  induction h with
  | nil => cases ha
  | @lock held l' prog _ _ ih =>
    have ha' := (List.mem_cons.mp ha).resolve_left nofun
    have hne : l ≠ l' := fun heq => hguarded.1 l' rfl a ha' (heq ▸ hl)
    exact (List.mem_cons.mp (ih hguarded.2 ha')).resolve_left hne
  | unlock _ ih => exact List.mem_cons_of_mem _ (ih hguarded.2 ((List.mem_cons.mp ha).resolve_left nofun))
  | @act held held' b prog hfits _ ih =>
    rcases List.mem_cons.mp ha with heq | ha
    · exact hneeds b l held held' (Instr.act.inj heq ▸ hl) hfits
    · exact hshrinks b held held' hfits l (ih hguarded.2 ha)

end Guarded

/-! ### Steps -/

variable [DecidableEq ι]

theorem Sound.change (h : Sound rank fits s) {x : Thread L A} {locked : L → Bool} (shared : σ)
    (hordered : Ordered rank fits x.held x.prog) (hsorted : x.held.Pairwise fun l l' => rank l' < rank l)
    (hlocked : ∀ l, locked l = true ↔ l ∈ x.held ∨ ∃ j, j ≠ i ∧ l ∈ (s.threads j).held)
    (hexclusive : ∀ j, j ≠ i → ∀ l ∈ x.held, l ∉ (s.threads j).held) :
    Sound rank fits ⟨shared, locked, Function.update s.threads i x⟩ := by
  have hself : Function.update s.threads i x i = x := Function.update_self ..
  have hother : ∀ j, j ≠ i → Function.update s.threads i x j = s.threads j := fun j hj => Function.update_of_ne hj ..
  have hall : ∀ P : Thread L A → Prop, P x → (∀ j, P (s.threads j)) → ∀ j, P (Function.update s.threads i x j) := by
    intro P hx hP j
    by_cases hj : j = i
    · rw [hj, hself]
      exact hx
    · rw [hother j hj]
      exact hP j
  refine ⟨hall (fun x => Ordered rank fits x.held x.prog) hordered h.ordered,
    hall (fun x => x.held.Pairwise fun l l' => rank l' < rank l) hsorted h.sorted, fun l => (hlocked l).trans ⟨?_, ?_⟩,
    fun j k l hj hk => ?_⟩
  · rintro (hl | ⟨j, hji, hl⟩)
    · have hmem : l ∈ (Function.update s.threads i x i).held := by rwa [hself]
      exact ⟨i, hmem⟩
    · have hmem : l ∈ (Function.update s.threads i x j).held := by rwa [hother j hji]
      exact ⟨j, hmem⟩
  · rintro ⟨j, hl⟩
    by_cases hji : j = i
    · exact .inl (hself ▸ hji ▸ hl)
    · exact .inr ⟨j, hji, hother j hji ▸ hl⟩
  · by_cases hji : j = i <;> by_cases hki : k = i
    · exact hji.trans hki.symm
    · exact absurd (hother k hki ▸ hk) (hexclusive k hki l (hself ▸ hji ▸ hj))
    · exact absurd (hother j hji ▸ hj) (hexclusive j hji l (hself ▸ hki ▸ hk))
    · exact h.exclusive j k l (hother j hji ▸ hj) (hother k hki ▸ hk)

/-- A thread that only changes its program. -/
theorem Sound.program (h : Sound rank fits s) (hprog : Ordered rank fits (s.threads i).held prog) (shared : σ) :
    Sound rank fits ⟨shared, s.locked, Function.update s.threads i ⟨(s.threads i).held, prog⟩⟩ := by
  refine h.change shared hprog (h.sorted i) (fun l => (h.locked l).trans ⟨fun ⟨j, hl⟩ => ?_, ?_⟩) fun j hji l hl hl' =>
    hji (h.exclusive j i l hl' hl)
  · by_cases hji : j = i
    · exact .inl (hji ▸ hl)
    · exact .inr ⟨j, hji, hl⟩
  · rintro (hl | ⟨j, -, hl⟩)
    · exact ⟨i, hl⟩
    · exact ⟨j, hl⟩

theorem Sound.call (h : Sound rank fits s) (hprog : Ordered rank fits [] prog) (hs : call s i prog = some t) :
    Sound rank fits t := by
  obtain ⟨hempty, heq⟩ := Option.ite_none_right_eq_some.mp hs
  cases heq
  have hnone := h.released (List.isEmpty_iff.mp hempty)
  exact h.program (by rw [hnone]; exact hprog) s.shared

variable [DecidableEq L]

theorem Sound.step (h : Sound rank fits s)
    (expand : ∀ a held' prog, (s.threads i).prog = .act a :: prog → fits a (s.threads i).held held' →
      Ordered rank fits held' prog → Ordered rank fits (s.threads i).held ((run s.shared a).2 ++ prog))
    (hs : step run s i = some t) : Sound rank fits t := by
  have hordered := h.ordered i
  unfold Locks.step at hs
  cases hprog : (s.threads i).prog with
  | nil => simp [hprog] at hs
  | cons x prog =>
    rw [hprog] at hordered
    cases x with
    | act a =>
      simp only [hprog, Option.some.injEq] at hs
      subst hs
      obtain ⟨held', hfits, hrest⟩ := hordered.of_act
      exact h.program (expand a held' prog hprog hfits hrest) _
    | lock l =>
      simp only [hprog, Option.ite_none_left_eq_some, Option.some.injEq] at hs
      obtain ⟨hfree, rfl⟩ := hs
      obtain ⟨hrank, hrest⟩ := hordered.of_lock
      have hnobody : ∀ j, l ∉ (s.threads j).held := fun j hj => hfree ((h.locked l).mpr ⟨j, hj⟩)
      refine h.change s.shared hrest (List.pairwise_cons.mpr ⟨hrank, h.sorted i⟩) (fun l' => ?_) fun j hji l' hl' hj => ?_
      · by_cases heq : l' = l
        · rw [heq, Function.update_self]
          exact iff_of_true rfl (.inl List.mem_cons_self)
        · rw [Function.update_of_ne heq, h.locked l']
          constructor
          · rintro ⟨j, hj⟩
            by_cases hji : j = i
            · exact .inl (List.mem_cons_of_mem _ (hji ▸ hj))
            · exact .inr ⟨j, hji, hj⟩
          · rintro (hl | ⟨j, -, hj⟩)
            · exact ⟨i, (List.mem_cons.mp hl).resolve_left heq⟩
            · exact ⟨j, hj⟩
      · rcases List.mem_cons.mp hl' with rfl | hl'
        · exact hnobody j hj
        · exact hji (h.exclusive j i l' hj hl')
    | unlock l =>
      simp only [hprog, Option.some.injEq] at hs
      subst hs
      obtain ⟨rest, hheld, hrest⟩ := hordered.of_unlock
      obtain ⟨hrank, hsorted⟩ := List.pairwise_cons.mp (hheld ▸ h.sorted i)
      have hmine : ∀ l', l' ∈ (s.threads i).held ↔ l' = l ∨ l' ∈ rest := fun l' => by rw [hheld, List.mem_cons]
      rw [hheld, List.erase_cons_head]
      refine h.change s.shared hrest hsorted (fun l' => ?_) fun j hji l' hl' hj =>
        hji (h.exclusive j i l' hj ((hmine l').mpr (.inr hl')))
      by_cases heq : l' = l
      · rw [heq, Function.update_self]
        refine iff_of_false Bool.noConfusion ?_
        rintro (hl | ⟨j, hji, hj⟩)
        · exact Nat.lt_irrefl _ (hrank l hl)
        · exact hji (h.exclusive j i l hj ((hmine l).mpr (.inl rfl)))
      · rw [Function.update_of_ne heq, h.locked l']
        constructor
        · rintro ⟨j, hj⟩
          by_cases hji : j = i
          · exact .inl (((hmine l').mp (hji ▸ hj)).resolve_left heq)
          · exact .inr ⟨j, hji, hj⟩
        · rintro (hl | ⟨j, -, hj⟩)
          · exact ⟨i, (hmine l').mpr (.inr hl)⟩
          · exact ⟨j, hj⟩

/-- What a thread waits for is taken by one that waits for a lock of a higher rank, or can go on. -/
theorem Sound.progress (h : Sound rank fits s) {bound : Nat} (hbound : ∀ l, rank l < bound) (hi : (s.threads i).prog ≠ []) :
    ∃ j t, Locks.step run s j = some t := by
  suffices hgoal : ∀ n i, (∀ l rest, (s.threads i).prog = .lock l :: rest → bound ≤ rank l + n) → (s.threads i).prog ≠ [] →
      ∃ j t, Locks.step run s j = some t from
    hgoal bound i (fun l _ _ => Nat.le_add_left _ _) hi
  intro n
  induction n with
  | zero =>
    intro i hlow hi
    cases hprog : (s.threads i).prog with
    | nil => exact absurd hprog hi
    | cons x prog =>
      cases x with
      | lock l => exact absurd (hlow l prog hprog) (Nat.not_le.mpr (hbound l))
      | unlock | act => exact ⟨i, _, by simp only [Locks.step, hprog]; rfl⟩
  | succ n ih =>
    intro i hlow hi
    cases hprog : (s.threads i).prog with
    | nil => exact absurd hprog hi
    | cons x prog =>
      cases x with
      | unlock | act => exact ⟨i, _, by simp only [Locks.step, hprog]; rfl⟩
      | lock l =>
        cases hlocked : s.locked l with
        | false => exact ⟨i, _, by simp only [Locks.step, hprog, hlocked]; rfl⟩
        | true =>
          obtain ⟨j, hj⟩ := (h.locked l).mp hlocked
          refine ih j (fun l' rest hj' => ?_) fun hnil => ?_
          · have hrank : rank l < rank l' := (hj' ▸ h.ordered j).of_lock.1 l hj
            have hle := hlow l prog hprog
            omega
          · rw [h.released hnil] at hj
            cases hj

end Lib.Locks
