import MyHttp.FdManager.Calls
import MyHttp.Theorems.FdManager.Reuse

/-! The table of contexts under calls of `get` and `del` in any order. Only a creation writes to it, and it does not look
    at the size. -/

namespace MyHttp
namespace FdManager

variable {s t : FdManager} {c : FdCall} {calls pre mid : List FdCall} {fd fd' p : Nat} {files : Nat → Option File}

/-! ### One call -/

theorem create_get (hfd : fd < s.datas.length) : (s.create fd).get fd = some s.objects.length := get_set rfl hfd

theorem create_get_of_ne (hne : fd' ≠ fd) : (s.create fd).get fd' = s.get fd' := get_set_of_ne rfl hne

theorem get_of_length_le (h : s.datas.length ≤ fd) : s.get fd = none := by
  rw [get, List.getElem?_eq_none h]
  rfl

/-- A call changes nothing, or creates a context for a descriptor that has none. -/
theorem call_cases (s : FdManager) (c : FdCall) : (s.call c).2 = s ∨
    ∃ fd, c = .get fd true ∧ s.get fd = none ∧ (s.call c).1.ptr = some s.objects.length ∧ (s.call c).2 = s.create fd := by
  rcases c with ⟨fd, autoCreate⟩ | fd
  · by_cases hlen : s.datas.length ≤ fd
    · cases autoCreate with
      | false => exact .inl (by simp [call, hlen])
      | true => exact .inr ⟨fd, rfl, get_of_length_le hlen, by simp [call, hlen], by simp [call, hlen]⟩
    · by_cases hfound : (s.get fd).isSome ∨ autoCreate = false
      · exact .inl (by rw [call, if_neg hlen, if_pos hfound])
      · rw [call, if_neg hlen, if_neg hfound]
        rw [not_or, Option.not_isSome_iff_eq_none, Bool.not_eq_false] at hfound
        exact .inr ⟨fd, by rw [hfound.2], hfound.1, rfl, rfl⟩
  · exact .inl rfl

/-- The places that a call touches are in the table, unless it creates behind the end. -/
theorem touched_iff (s : FdManager) (c : FdCall) : (∀ i ∈ (s.call c).1.touched, i < s.datas.length) ↔
    ∀ fd, c = .get fd true → fd < s.datas.length := by
  rcases c with ⟨fd, autoCreate⟩ | fd
  · by_cases hlen : s.datas.length ≤ fd
    · cases autoCreate with
      | false => simp [call, hlen]
      | true => simp [call, hlen]
    · have hlt := Nat.not_le.mp hlen
      refine iff_of_true (fun i hi => ?_) fun fd' heq => ?_
      · rw [call, if_neg hlen] at hi
        have hfd : i = fd := by
          split_ifs at hi <;> simpa using hi
        exact hfd ▸ hlt
      · cases heq
        exact hlt
  · simp [call]

/-- A context that is there is what `get` returns, and it stays. -/
theorem call_get (h : s.get fd = some p) (autoCreate : Bool) : (s.call (.get fd autoCreate)).1.ptr = some p := by
  have hlen : ¬s.datas.length ≤ fd := fun hlen => by
    rw [get_of_length_le hlen] at h
    cases h
  rw [call, if_neg hlen, if_pos (.inl (by rw [h]; rfl)), h]

theorem call_keeps (h : s.get fd = some p) (c : FdCall) : (s.call c).2.get fd = some p := by
  rcases call_cases s c with heq | ⟨fd', -, hnone, -, heq⟩
  · rw [heq, h]
  · have hne : fd ≠ fd' := by
      rintro rfl
      rw [h] at hnone
      cases hnone
    rw [heq, create_get_of_ne hne, h]

/-- A call that does not create behind the end leaves its descriptor with what it has returned. -/
theorem getTrue_get (hfd : fd < s.datas.length) :
    ∃ p, (s.call (.get fd true)).1.ptr = some p ∧ (s.call (.get fd true)).2.get fd = some p := by
  cases hget : s.get fd with
  | some p => exact ⟨p, call_get hget true, call_keeps hget _⟩
  | none =>
    have hno : ¬((s.get fd).isSome ∨ true = false) := by simp [hget]
    refine ⟨s.objects.length, ?_, ?_⟩
    · rw [call, if_neg (Nat.not_le.mpr hfd), if_neg hno]
    · rw [call, if_neg (Nat.not_le.mpr hfd), if_neg hno]
      exact create_get hfd

/-! ### Runs -/

/-- The table has its first size, and its pointers are to contexts that exist. -/
structure Sized (s : FdManager) : Prop where
  length : s.datas.length = 64
  below : ∀ fd p, s.get fd = some p → p < s.objects.length

theorem sized_init : (init files).Sized where
  length := owned_init.size
  below fd p h := by
    have hnone : (init files).get fd = none := by
      unfold init get
      rcases Nat.lt_or_ge fd 64 with hlt | hge
      · rw [List.getElem?_replicate_of_lt hlt]
        rfl
      · rw [List.getElem?_eq_none (by rw [List.length_replicate]; exact hge)]
        rfl
    rw [hnone] at h
    cases h

theorem Sized.create (h : s.Sized) (fd : Nat) : (s.create fd).Sized where
  length := (List.length_set ..).trans h.length
  below fd' p hget := by
    have hlen : (s.create fd).objects.length = s.objects.length + 1 := List.length_append
    rw [hlen]
    by_cases hne : fd' = fd
    · rw [hne] at hget
      rcases Nat.lt_or_ge fd s.datas.length with hlt | hge
      · rw [create_get hlt] at hget
        exact Option.some.inj hget ▸ Nat.lt_succ_self _
      · rw [get_of_length_le ((List.length_set ..).trans_le hge)] at hget
        cases hget
    · rw [create_get_of_ne hne] at hget
      exact Nat.lt_succ_of_lt (h.below fd' p hget)

theorem Sized.call (h : s.Sized) (c : FdCall) : (s.call c).2.Sized := by
  rcases call_cases s c with heq | ⟨fd, -, -, -, heq⟩
  · rwa [heq]
  · rw [heq]
    exact h.create fd

theorem Sized.after (h : s.Sized) (calls : List FdCall) : (s.after calls).Sized := by
  induction calls generalizing s with
  | nil => exact h
  | cons c calls ih => exact ih (h.call c)

theorem after_append (s : FdManager) (calls calls' : List FdCall) :
    s.after (calls ++ calls') = (s.after calls).after calls' :=
  List.foldl_append

theorem after_keeps (h : s.get fd = some p) (calls : List FdCall) : (s.after calls).get fd = some p := by
  induction calls generalizing s with
  | nil => exact h
  | cons c calls ih => exact ih (call_keeps h c)

/-- A call leaves the other descriptors and their contexts alone. -/
theorem Sized.others (h : s.Sized) (hne : fd ≠ c.fd) :
    (s.call c).2.get fd = s.get fd ∧ (s.call c).2.getCtx fd = s.getCtx fd := by
  rcases call_cases s c with heq | ⟨fd', rfl, -, -, heq⟩
  · rw [heq]
    exact ⟨rfl, rfl⟩
  · have hget : (s.create fd').get fd = s.get fd := create_get_of_ne hne
    rw [heq]
    refine ⟨hget, ?_⟩
    unfold getCtx
    rw [hget]
    cases hold : s.get fd with
    | none => rfl
    | some p => exact List.getElem?_append_left (h.below fd p hold)

/-- `calls` is what is called on a new manager, `before ++ [c]` what has been called up to some moment. -/
structure Law (files : Nat → Option File) (calls : List FdCall) : Prop where
  inside : ∀ before c, before ++ [c] <+: calls →
    ∀ i ∈ ((init files).reply before c).touched, i < ((init files).after before).datas.length
  same : ∀ before fd mid, before ++ .get fd true :: mid <+: calls → .del fd ∉ mid →
    ∃ p, ((init files).reply before (.get fd true)).ptr = some p ∧
      ∀ autoCreate, before ++ .get fd true :: (mid ++ [.get fd autoCreate]) <+: calls →
        ((init files).reply (before ++ .get fd true :: mid) (.get fd autoCreate)).ptr = some p
  others : ∀ before c fd, before ++ [c] <+: calls → fd ≠ c.fd →
    ((init files).after (before ++ [c])).get fd = ((init files).after before).get fd ∧
      ((init files).after (before ++ [c])).getCtx fd = ((init files).after before).getCtx fd

/-- The law holds for exactly the calls that create no context for a descriptor from `64` on. -/
theorem law_iff (files : Nat → Option File) (calls : List FdCall) :
    Law files calls ↔ ∀ fd, .get fd true ∈ calls → fd < 64 := by
  have hsized : ∀ before, ((init files).after before).Sized := sized_init.after
  constructor
  · intro h fd hmem
    obtain ⟨before, rest, rfl⟩ := List.append_of_mem hmem
    have hpre : before ++ [.get fd true] <+: before ++ .get fd true :: rest :=
      (List.prefix_append_right_inj before).mpr (List.prefix_append [_] rest)
    have hlt := (touched_iff _ _).mp (h.inside before _ hpre) fd rfl
    rwa [(hsized before).length] at hlt
  · intro hall
    refine ⟨fun before c hpre => (touched_iff _ c).mpr ?_, ?_, ?_⟩
    · rintro fd rfl
      rw [(hsized before).length]
      exact hall fd (hpre.subset (List.mem_append_right _ (List.mem_singleton_self _)))
    · intro before fd mid hpre _
      have hfd : fd < ((init files).after before).datas.length := by
        rw [(hsized before).length]
        exact hall fd (hpre.subset (List.mem_append_right _ List.mem_cons_self))
      obtain ⟨p, hptr, hget⟩ := getTrue_get hfd
      refine ⟨p, hptr, fun autoCreate _ => call_get ?_ autoCreate⟩
      rw [after_append]
      exact after_keeps hget mid
    · intro before c fd _ hne
      rw [after_append]
      exact (hsized before).others hne

/-- The first descriptor behind the table. -/
theorem create_outside : ¬∀ files calls, Law files calls := by
  intro h
  have hinside := (h (fun _ => none) [.get 64 true]).inside [] _ (List.prefix_refl _)
  exact absurd (hinside 64 (by decide)) (by decide)

end FdManager
end MyHttp
