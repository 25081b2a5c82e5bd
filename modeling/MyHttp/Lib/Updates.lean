import Mathlib.Data.List.Pairwise
import Mathlib.Logic.Function.Basic

/-! Updates of a map at several keys, one behind the other. Where no key comes twice, each entry is updated from what it
    was before the first. -/

namespace Lib.Updates

variable {κ ν β : Type} [DecidableEq κ] {key : β → κ} {f : β → ν → Option ν} {m m' : κ → ν} {l : List β}

/-- One update; it may fail. -/
def update (key : β → κ) (f : β → ν → Option ν) (m : κ → ν) (x : β) : Option (κ → ν) :=
  (f x (m (key x))).map (Function.update m (key x))

theorem foldlM_cons (x : β) (l : List β) : (x :: l).foldlM (update key f) m =
    (f x (m (key x))).bind fun v => l.foldlM (update key f) (Function.update m (key x) v) := by
  rw [List.foldlM_cons, update]
  cases f x (m (key x)) <;> rfl

/-- Updates at different keys do not see each other, in whatever order they are made. -/
theorem foldlM_update (hl : l.Pairwise fun x y => key x ≠ key y) : l.foldlM (update key f) m = some m' ↔
    (∀ x ∈ l, f x (m (key x)) = some (m' (key x))) ∧ ∀ k, (∀ x ∈ l, key x ≠ k) → m' k = m k := by
  induction l generalizing m with
  | nil =>
    constructor
    · intro h
      obtain rfl := Option.some.inj h
      exact ⟨fun x hx => absurd hx List.not_mem_nil, fun _ _ => rfl⟩
    · rintro ⟨-, hsame⟩
      exact congrArg some (funext fun k => (hsame k fun x hx => absurd hx List.not_mem_nil).symm)
  | cons x l ih =>
    obtain ⟨hx, hl⟩ := List.pairwise_cons.mp hl
    rw [foldlM_cons]
    constructor
    · intro h
      obtain ⟨v, hv, h⟩ := Option.bind_eq_some_iff.mp h
      obtain ⟨hall, hsame⟩ := (ih hl).mp h
      have hkey : m' (key x) = v := by
        rw [hsame _ fun y hy => (hx y hy).symm, Function.update_self]
      refine ⟨fun y hy => ?_, fun k hk => ?_⟩
      · rcases List.mem_cons.mp hy with rfl | hy
        · rw [hv, hkey]
        · rw [← hall y hy, Function.update_of_ne (hx y hy).symm]
      · rw [hsame k fun y hy => hk y (List.mem_cons_of_mem x hy), Function.update_of_ne (hk x List.mem_cons_self).symm]
    · rintro ⟨hall, hsame⟩
      refine Option.bind_eq_some_iff.mpr ⟨m' (key x), hall x List.mem_cons_self, (ih hl).mpr ⟨fun y hy => ?_, fun k hk => ?_⟩⟩
      · rw [Function.update_of_ne (hx y hy).symm]
        exact hall y (List.mem_cons_of_mem x hy)
      · by_cases hkx : k = key x
        · rw [hkx, Function.update_self]
        · rw [Function.update_of_ne hkx]
          refine hsame k fun y hy => ?_
          rcases List.mem_cons.mp hy with rfl | hy
          · exact Ne.symm hkx
          · exact hk y hy

/-- No update fails when none does on its own. -/
theorem exists_foldlM_update (hl : l.Pairwise fun x y => key x ≠ key y) (h : ∀ x ∈ l, ∃ v, f x (m (key x)) = some v) :
    ∃ m', l.foldlM (update key f) m = some m' := by
  induction l generalizing m with
  | nil => exact ⟨m, rfl⟩
  | cons x l ih =>
    obtain ⟨hx, hl⟩ := List.pairwise_cons.mp hl
    obtain ⟨v, hv⟩ := h x List.mem_cons_self
    rw [foldlM_cons, hv, Option.bind_some]
    refine ih hl fun y hy => ?_
    rw [Function.update_of_ne (hx y hy).symm]
    exact h y (List.mem_cons_of_mem x hy)

end Lib.Updates
