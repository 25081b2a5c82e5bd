import Mathlib.Logic.Function.Basic

/-! Handles that are open each belong to one owner, or to none and are lost. -/

namespace Lib

universe u v
variable {ι : Type u} {η : Type v} {holds : ι → Option η} {isOpen : η → Bool} {lost : List η} {i : ι} {h : η}

structure Owns (holds : ι → Option η) (isOpen : η → Bool) (lost : List η) : Prop where
  held : ∀ i h, holds i = some h → isOpen h = true
  once : ∀ i j h, holds i = some h → holds j = some h → i = j
  owned : ∀ h, isOpen h = true → h ∈ lost ∨ ∃ i, holds i = some h
  lost : ∀ h ∈ lost, isOpen h = true ∧ ∀ i, holds i ≠ some h

namespace Owns

theorem empty : Owns (fun _ : ι => none) (fun _ : η => false) [] := ⟨nofun, nofun, nofun, nofun⟩

variable [DecidableEq η]

/-- A handle is opened and given to nobody. -/
theorem lose (ho : Owns holds isOpen lost) (hfree : isOpen h = false) :
    Owns holds (Function.update isOpen h true) (h :: lost) := by
  have hnew : ∀ j, holds j ≠ some h := fun j hj => Bool.noConfusion (hfree.symm.trans (ho.held j h hj))
  have hkept : ∀ h', isOpen h' = true → Function.update isOpen h true h' = true := fun h' hopen => by
    by_cases heq : h' = h
    · rw [heq, Function.update_self]
    · rw [Function.update_of_ne heq, hopen]
  refine ⟨fun j h' hj => hkept h' (ho.held j h' hj), ho.once, fun h' hopen => ?_, fun h' hlost => ?_⟩
  · by_cases heq : h' = h
    · exact .inl (heq ▸ List.mem_cons_self)
    · rw [Function.update_of_ne heq] at hopen
      exact (ho.owned h' hopen).imp (List.mem_cons_of_mem _) id
  · rcases List.mem_cons.mp hlost with rfl | hlost
    · exact ⟨Function.update_self .., hnew⟩
    · exact ⟨hkept h' (ho.lost h' hlost).1, (ho.lost h' hlost).2⟩

variable [DecidableEq ι]

omit [DecidableEq η] in
theorem update_cases {x : Option η} {j : ι} {h' : η} (hj : Function.update holds i x j = some h') :
    j = i ∧ x = some h' ∨ j ≠ i ∧ holds j = some h' := by
  by_cases hji : j = i
  · subst hji
    rw [Function.update_self] at hj
    exact .inl ⟨rfl, hj⟩
  · rw [Function.update_of_ne hji] at hj
    exact .inr ⟨hji, hj⟩

/-- An owner without a handle gets one that was not open. -/
theorem take (ho : Owns holds isOpen lost) (hi : holds i = none) (hfree : isOpen h = false) :
    Owns (Function.update holds i (some h)) (Function.update isOpen h true) lost := by
  have hnew : ∀ j, holds j ≠ some h := fun j hj => Bool.noConfusion (hfree.symm.trans (ho.held j h hj))
  refine ⟨fun j h' hj => ?_, fun j k h' hj hk => ?_, fun h' hopen => ?_, fun h' hlost => ?_⟩
  · rcases update_cases hj with ⟨-, heq⟩ | ⟨-, hj⟩
    · obtain rfl := Option.some.inj heq
      exact Function.update_self ..
    · have hne : h' ≠ h := fun heq => hnew j (heq ▸ hj)
      rw [Function.update_of_ne hne]
      exact ho.held j h' hj
  · rcases update_cases hj with ⟨hji, heq⟩ | ⟨-, hj'⟩ <;> rcases update_cases hk with ⟨hki, heq'⟩ | ⟨-, hk'⟩
    · exact hji.trans hki.symm
    · exact absurd ((Option.some.inj heq).symm ▸ hk') (hnew k)
    · exact absurd ((Option.some.inj heq').symm ▸ hj') (hnew j)
    · exact ho.once j k h' hj' hk'
  · by_cases heq : h' = h
    · exact .inr ⟨i, by rw [Function.update_self, heq]⟩
    · rw [Function.update_of_ne heq] at hopen
      refine (ho.owned h' hopen).imp id fun ⟨j, hj⟩ => ⟨j, ?_⟩
      have hne : j ≠ i := fun hji => by rw [hji, hi] at hj; cases hj
      rw [Function.update_of_ne hne, hj]
  · obtain ⟨hopen, hnone⟩ := ho.lost h' hlost
    have hne : h' ≠ h := fun heq => Bool.noConfusion (hfree.symm.trans (heq ▸ hopen))
    rw [Function.update_of_ne hne]
    refine ⟨hopen, fun j hj => ?_⟩
    rcases update_cases hj with ⟨-, heq⟩ | ⟨-, hj⟩
    · exact hne (Option.some.inj heq).symm
    · exact hnone j hj

/-- An owner closes its handle. -/
theorem give (ho : Owns holds isOpen lost) (hi : holds i = some h) :
    Owns (Function.update holds i none) (Function.update isOpen h false) lost := by
  refine ⟨fun j h' hj => ?_, fun j k h' hj hk => ?_, fun h' hopen => ?_, fun h' hlost => ?_⟩
  · rcases update_cases hj with ⟨-, heq⟩ | ⟨hji, hj⟩
    · cases heq
    · have hne : h' ≠ h := fun heq => hji (ho.once j i h (heq ▸ hj) hi)
      rw [Function.update_of_ne hne]
      exact ho.held j h' hj
  · rcases update_cases hj with ⟨-, heq⟩ | ⟨-, hj⟩
    · cases heq
    · rcases update_cases hk with ⟨-, heq⟩ | ⟨-, hk⟩
      · cases heq
      · exact ho.once j k h' hj hk
  · by_cases heq : h' = h
    · rw [heq, Function.update_self] at hopen
      cases hopen
    · rw [Function.update_of_ne heq] at hopen
      refine (ho.owned h' hopen).imp id fun ⟨j, hj⟩ => ⟨j, ?_⟩
      have hne : j ≠ i := fun hji => by rw [hji, hi] at hj; exact heq (Option.some.inj hj).symm
      rw [Function.update_of_ne hne, hj]
  · obtain ⟨hopen, hnone⟩ := ho.lost h' hlost
    have hne : h' ≠ h := fun heq => hnone i (heq ▸ hi)
    rw [Function.update_of_ne hne]
    refine ⟨hopen, fun j hj => ?_⟩
    rcases update_cases hj with ⟨-, heq⟩ | ⟨-, hj⟩
    · cases heq
    · exact hnone j hj

end Owns
end Lib
