import Mathlib.Data.List.Induction

/-! Runs of a step function. An action is either not possible in a state (`none`) or leads to one
    next state. Two parties that interleave are one step function whose actions name the party. -/

namespace Lib.Run

universe u v
variable {σ : Type u} {α : Type v} {step : σ → α → Option σ} {ok : σ → α → Prop} {s₀ s t : σ}

/-- Of two fallible computations in sequence both succeed, or the whole fails. -/
theorem bind_eq_ok {ε α β : Type} {x : Except ε α} {f : α → Except ε β} {b : β} :
    x >>= f = .ok b ↔ ∃ a, x = .ok a ∧ f a = .ok b := by
  cases x <;> simp [bind, Except.bind]

/-- The states a run reaches from `s₀` when every step meets `ok` in the state it is taken from. -/
inductive Reach (step : σ → α → Option σ) (ok : σ → α → Prop) (s₀ : σ) : σ → Prop
  | start : Reach step ok s₀ s₀
  | next {s t : σ} {a : α} : Reach step ok s₀ s → ok s a → step s a = some t → Reach step ok s₀ t

/-- What holds at the start and is kept by every step holds in every state reached. -/
theorem Reach.invariant {P : σ → Prop} (h : Reach step ok s₀ s) (init : P s₀)
    (keep : ∀ s a t, P s → ok s a → step s a = some t → P t) : P s := by
  induction h with
  | start => exact init
  | next _ hok hs ih => exact keep _ _ _ ih hok hs

/-- A relation that holds at the start and is kept by every step, with a step of the other side for it, holds between
    the states reached. -/
theorem Reach.simulation {τ : Type u} {step' : τ → α → Option τ} {ok' : τ → α → Prop} {t₀ : τ} {R : σ → τ → Prop}
    (h : Reach step ok s₀ s) (init : R s₀ t₀)
    (sim : ∀ s a s' t, R s t → ok s a → step s a = some s' → ∃ t', ok' t a ∧ step' t a = some t' ∧ R s' t') :
    ∃ t, Reach step' ok' t₀ t ∧ R s t := by
  induction h with
  | start => exact ⟨t₀, .start, init⟩
  | next _ hok hs ih =>
    obtain ⟨t, hreach, hR⟩ := ih
    obtain ⟨t', hok', hs', hR'⟩ := sim _ _ _ t hR hok hs
    exact ⟨t', hreach.next hok' hs', hR'⟩

theorem Reach.trans (h₁ : Reach step ok s₀ s) (h₂ : Reach step ok s t) : Reach step ok s₀ t := by
  induction h₂ with
  | start => exact h₁
  | next _ hok hs ih => exact .next ih hok hs

/-- The state after a list of actions, each taken only where `ok` holds. -/
def exec (step : σ → α → Option σ) (ok : σ → α → Prop) [∀ s a, Decidable (ok s a)] : σ → List α → Option σ
  | s, [] => some s
  | s, a :: as => if ok s a then (step s a).bind fun t => exec step ok t as else none

theorem reach_of_exec [∀ s a, Decidable (ok s a)] {as : List α} (h : exec step ok s as = some t) :
    Reach step ok s t := by
  induction as generalizing s with
  | nil =>
    obtain rfl : s = t := by simpa [exec] using h
    exact .start
  | cons a as ih =>
    unfold exec at h
    split at h
    case isTrue hok =>
      obtain ⟨u, hu, h⟩ := Option.bind_eq_some_iff.mp h
      exact (Reach.next .start hok hu).trans (ih h)
    case isFalse => cases h

/-- A run is not longer than what every step takes from a measure, as long as what it keeps holds. -/
theorem exec_length_of [∀ s a, Decidable (ok s a)] {measure : σ → Nat} {P : σ → Prop}
    (decreases : ∀ s a t, P s → ok s a → step s a = some t → P t ∧ measure t < measure s) (init : P s) {as : List α}
    (h : exec step ok s as = some t) : P t ∧ as.length + measure t ≤ measure s := by
  induction as generalizing s with
  | nil =>
    obtain rfl : s = t := by simpa [exec] using h
    exact ⟨init, Nat.le_of_eq (Nat.zero_add _)⟩
  | cons a as ih =>
    unfold exec at h
    split at h
    case isTrue hok =>
      obtain ⟨u, hu, h⟩ := Option.bind_eq_some_iff.mp h
      obtain ⟨hkept, hfirst⟩ := decreases s a u init hok hu
      obtain ⟨hlast, hrest⟩ := ih hkept h
      refine ⟨hlast, ?_⟩
      rw [List.length_cons]
      omega
    case isFalse => cases h

/-- A run is not longer than what every step takes from a measure. -/
theorem exec_length [∀ s a, Decidable (ok s a)] {measure : σ → Nat}
    (decreases : ∀ s a t, step s a = some t → measure t < measure s) {as : List α} (h : exec step ok s as = some t) :
    as.length + measure t ≤ measure s :=
  (exec_length_of (P := fun _ => True) (fun s a t _ _ hs => ⟨trivial, decreases s a t hs⟩) trivial h).2

/-- Where every step outside `ok` leaves a mark, steps within it leave none, and marks stay, the runs without a mark at
    the end are those in which every step has met `ok`. -/
theorem exec_iff_unmarked [∀ s a, Decidable (ok s a)] {P marked : σ → Prop} (unmarked : ∀ s, P s → ¬marked s)
    (keep : ∀ s a t, P s → ok s a → step s a = some t → P t)
    (mark : ∀ s a t, P s → ¬ok s a → step s a = some t → marked t)
    (stay : ∀ s a t, marked s → step s a = some t → marked t) (init : P s) {as : List α}
    (h : exec step (fun _ _ => True) s as = some t) : exec step ok s as = some t ↔ ¬marked t := by
  induction as generalizing s with
  | nil => exact iff_of_true h (unmarked t (Option.some.inj h ▸ init))
  | cons a as ih =>
    unfold exec at h
    rw [if_pos trivial] at h
    obtain ⟨u, hu, hrest⟩ := Option.bind_eq_some_iff.mp h
    unfold exec
    by_cases hok : ok s a
    · rw [if_pos hok, hu, Option.bind_some]
      exact ih (keep s a u init hok hu) hrest
    · have hmark : marked t := (reach_of_exec hrest).invariant (mark s a u init hok hu) fun s a t hs _ => stay s a t hs
      rw [if_neg hok]
      exact iff_of_false (Option.some_ne_none t).symm (not_not_intro hmark)

/-- Where a step from a state in which `P` holds keeps it exactly when `ok` does, `P` holds after every first part of a list
    of actions exactly when each of them meets `ok` in the state that it is taken from. -/
theorem foldl_invariant_iff {f : σ → α → σ} {P : σ → Prop} (init : P s) (keep : ∀ s a, P s → (P (f s a) ↔ ok s a))
    (as : List α) : (∀ bs, bs <+: as → P (bs.foldl f s)) ↔ ∀ bs a, bs ++ [a] <+: as → ok (bs.foldl f s) a := by
  constructor
  · intro h bs a hbs
    have hafter := h (bs ++ [a]) hbs
    rw [List.foldl_append] at hafter
    exact (keep _ a (h bs ((List.prefix_append bs [a]).trans hbs))).mp hafter
  · intro h bs hbs
    induction bs using List.reverseRecOn with
    | nil => exact init
    | append_singleton bs a ih =>
      rw [List.foldl_append]
      exact (keep _ a (ih ((List.prefix_append bs [a]).trans hbs))).mpr (h bs a hbs)

/-! ### Traces -/

variable {τ : Type u} {ε : Type v}

/-- A run of a step relation, with what is seen of its steps in order. -/
inductive Trace {σ : Type u} (step : σ → ε → σ → Prop) : σ → List ε → σ → Prop
  | nil {s : σ} : Trace step s [] s
  | cons {s t u : σ} {e : ε} {es : List ε} : step s e t → Trace step t es u → Trace step s (e :: es) u

/-- A relation that every step keeps, with the same event on both sides, is kept by whole runs. -/
theorem Trace.simulation {low : σ → ε → σ → Prop} {high : τ → ε → τ → Prop} {R : σ → τ → Prop}
    (sim : ∀ s e s' t, R s t → low s e s' → ∃ t', high t e t' ∧ R s' t') {s s' : σ} {t : τ} {es : List ε}
    (h : Trace low s es s') (hR : R s t) : ∃ t', Trace high t es t' ∧ R s' t' := by
  induction h generalizing t with
  | nil => exact ⟨t, .nil, hR⟩
  | cons hstep _ ih =>
    obtain ⟨t₁, hhigh, hR₁⟩ := sim _ _ _ _ hR hstep
    obtain ⟨t', hrun, hR'⟩ := ih hR₁
    exact ⟨t', .cons hhigh hrun, hR'⟩

end Lib.Run
