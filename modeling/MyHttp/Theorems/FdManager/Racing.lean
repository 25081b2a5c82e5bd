import MyHttp.Theorems.FdManager.Table

/-! Threads that ask for the context of one descriptor. A thread that comes to the write lock after another one has
    created the context creates a second one. -/

namespace MyHttp
namespace FdThreads

open Lib.Run FdManager

variable {n fd p : Nat} {s t : FdThreads n} {a : Act n} {as : List (Act n)} {i : Fin n}

/-- All pointers that have been returned are to one context, so that what is set through one of them is read through
    all. -/
structure OneContext (s : FdThreads n) : Prop where
  same : ∀ p ∈ s.returned, ∀ q ∈ s.returned, p = q
  timeout : ∀ p ∈ s.returned, ∀ q ∈ s.returned, ∀ type v,
    ((s.modify p (·.setTimeout type v)).manager.objects[q]?).map (·.getTimeout type) = some v
  userNonblock : ∀ p ∈ s.returned, ∀ q ∈ s.returned, ∀ v,
    ((s.modify p fun ctx => { ctx with userNonblock := v }).manager.objects[q]?).map (·.userNonblock) = some v

/-- A context is created only while there is none. -/
def Alone (fd : Nat) (s : FdThreads n) : Act n → Prop
  | .create _ => s.manager.get fd = none
  | _ => True

instance (fd : Nat) (s : FdThreads n) (a : Act n) : Decidable (Alone fd s a) := by
  cases a <;> unfold Alone <;> infer_instance

/-! ### One step -/

/-- What a step does to the manager, to the pointers and to the threads. -/
theorem step_cases (hs : step fd s a = some t) :
    (∃ i p, a = .lookup i ∧ s.manager.get fd = some p ∧ t = s.finish i p) ∨
    (∃ i, a = .lookup i ∧ s.manager.get fd = none ∧ t = s.goto i .missed) ∨
    (∃ i, a = .create i ∧ s.threads i = .missed ∧
      t = { s with manager := s.manager.create fd }.finish i s.manager.objects.length) ∨
    (∀ i, a ≠ .create i) ∧ ∃ p f, t = s.modify p f := by
  cases a with
  | lookup i =>
    unfold step at hs
    dsimp only at hs
    split at hs
    · cases hget : s.manager.get fd with
      | some p =>
        rw [hget] at hs
        exact .inl ⟨i, p, rfl, rfl, (Option.some.inj hs).symm⟩
      | none =>
        rw [hget] at hs
        exact .inr (.inl ⟨i, rfl, rfl, (Option.some.inj hs).symm⟩)
    · cases hs
  | create i =>
    obtain ⟨hpc, heq⟩ := Option.ite_none_right_eq_some.mp hs
    exact .inr (.inr (.inl ⟨i, rfl, hpc, (Option.some.inj heq).symm⟩))
  | setTimeout p type v =>
    obtain ⟨-, heq⟩ := Option.ite_none_right_eq_some.mp hs
    exact .inr (.inr (.inr ⟨nofun, p, _, (Option.some.inj heq).symm⟩))
  | setUserNonblock p v =>
    obtain ⟨-, heq⟩ := Option.ite_none_right_eq_some.mp hs
    exact .inr (.inr (.inr ⟨nofun, p, _, (Option.some.inj heq).symm⟩))


@[simp] theorem modify_length {f : FdCtx → FdCtx} :
    (s.modify p f).manager.objects.length = s.manager.objects.length :=
  List.length_modify ..

/-- What is returned stays returned. -/
theorem returned_mono (hs : step fd s a = some t) : s.returned ⊆ t.returned := by
  rcases step_cases hs with ⟨i, p, -, -, rfl⟩ | ⟨i, -, -, rfl⟩ | ⟨i, -, -, rfl⟩ | ⟨-, p, f, rfl⟩
  · exact List.subset_append_left ..
  · exact List.Subset.refl _
  · exact List.subset_append_left ..
  · exact List.Subset.refl _

/-! ### The invariant -/

/-- `fd` is a place of the table. The context in the table, if there is one, has been returned, or it was there before
    the threads looked. The pointers that were returned are the one in the table. -/
structure Inv (fd : Nat) (s : FdThreads n) : Prop where
  sized : s.manager.Sized
  told : ∀ p, s.manager.get fd = some p → p ∈ s.returned ∨ ∀ i, s.threads i = .out
  stored : ∀ p ∈ s.returned, s.manager.get fd = some p

theorem inv_start {manager : FdManager} (h : manager.Sized) : Inv fd (start n manager) where
  sized := h
  told _ _ := .inr fun _ => rfl
  stored _ hp := absurd hp List.not_mem_nil

theorem modify_sized {f : FdCtx → FdCtx} (h : s.manager.Sized) : (s.modify p f).manager.Sized where
  length := h.length
  below fd q hget := (h.below fd q hget).trans_eq modify_length.symm

theorem Inv.step (hfd : fd < 64) (h : Inv fd s) (halone : Alone fd s a) (hs : step fd s a = some t) : Inv fd t := by
  rcases step_cases hs with ⟨i, p, rfl, hget, rfl⟩ | ⟨i, rfl, hget, rfl⟩ | ⟨i, rfl, -, rfl⟩ | ⟨-, p, f, rfl⟩
  · have hmem : p ∈ (s.finish i p).returned := List.mem_append_right _ (List.mem_singleton_self p)
    refine ⟨h.sized, fun q hq => .inl ?_, fun q hq => ?_⟩
    · obtain rfl := Option.some.inj (hget.symm.trans hq)
      exact hmem
    · rcases List.mem_append.mp hq with hold | hnew
      · exact h.stored q hold
      · obtain rfl := List.mem_singleton.mp hnew
        exact hget
  · refine ⟨h.sized, fun q hq => ?_, h.stored⟩
    cases hget.symm.trans hq
  · have hlen : fd < s.manager.datas.length := h.sized.length ▸ hfd
    have hget := create_get (s := s.manager) hlen
    refine ⟨h.sized.create fd, fun q hq => .inl ?_, fun q hq => ?_⟩
    · obtain rfl := Option.some.inj (hget.symm.trans hq)
      exact List.mem_append_right _ (List.mem_singleton_self _)
    · rcases List.mem_append.mp hq with hold | hnew
      · -- nothing was returned while there was no context
        cases (h.stored q hold).symm.trans halone
      · obtain rfl := List.mem_singleton.mp hnew
        exact hget
  · exact ⟨modify_sized h.sized, h.told, h.stored⟩

theorem Inv.oneContext (h : Inv fd s) : OneContext s := by
  have hsame : ∀ p ∈ s.returned, ∀ q ∈ s.returned, p = q := fun p hp q hq =>
    Option.some.inj ((h.stored p hp).symm.trans (h.stored q hq))
  have hset : ∀ p ∈ s.returned, ∀ q ∈ s.returned, ∀ f : FdCtx → FdCtx,
      ∃ ctx, (s.modify p f).manager.objects[q]? = some (f ctx) := by
    intro p hp q hq f
    obtain rfl := hsame p hp q hq
    have hlt := h.sized.below fd p (h.stored p hp)
    refine ⟨s.manager.objects[p], ?_⟩
    unfold modify
    dsimp only
    rw [List.getElem?_modify_eq, List.getElem?_eq_getElem hlt]
    rfl
  refine ⟨hsame, fun p hp q hq type v => ?_, fun p hp q hq v => ?_⟩
  · obtain ⟨ctx, hctx⟩ := hset p hp q hq (·.setTimeout type v)
    rw [hctx]
    cases type <;> rfl
  · obtain ⟨ctx, hctx⟩ := hset p hp q hq fun ctx => { ctx with userNonblock := v }
    rw [hctx]
    rfl

/-- Two contexts have been returned. -/
def Split (s : FdThreads n) : Prop := ∃ p ∈ s.returned, ∃ q ∈ s.returned, p ≠ q

/-- A context that is created beside another one is a second one. -/
theorem Inv.split (h : Inv fd s) (halone : ¬Alone fd s a) (hs : FdThreads.step fd s a = some t) : Split t := by
  rcases step_cases hs with ⟨i, p, rfl, -, -⟩ | ⟨i, rfl, -, -⟩ | ⟨i, rfl, hpc, rfl⟩ | ⟨hne, -⟩
  · exact absurd trivial halone
  · exact absurd trivial halone
  · obtain ⟨p, hget⟩ := Option.ne_none_iff_exists'.mp halone
    have hmem : p ∈ s.returned := by
      rcases h.told p hget with hmem | hout
      · exact hmem
      · cases hpc.symm.trans (hout i)
    exact ⟨p, List.mem_append_left _ hmem, s.manager.objects.length,
      List.mem_append_right _ (List.mem_singleton_self _), Nat.ne_of_lt (h.sized.below fd p hget)⟩
  · cases a with
    | create i => exact absurd rfl (hne i)
    | lookup | setTimeout | setUserNonblock => exact absurd trivial halone

theorem Split.step (h : Split s) (hs : step fd s a = some t) : Split t := by
  obtain ⟨p, hp, q, hq, hne⟩ := h
  exact ⟨p, returned_mono hs hp, q, returned_mono hs hq, hne⟩

/-! ### Runs -/

theorem exec_alone_iff (hfd : fd < 64) {manager : FdManager} (hsized : manager.Sized)
    (h : exec (step fd) (fun _ _ => True) (start n manager) as = some t) :
    exec (step fd) (Alone fd) (start n manager) as = some t ↔ ¬Split t :=
  exec_iff_unmarked (P := Inv fd) (fun _ hinv hsplit => by
      obtain ⟨p, hp, q, hq, hne⟩ := hsplit
      exact hne (hinv.oneContext.same p hp q hq))
    (fun _ _ _ hinv halone hs => hinv.step hfd halone hs) (fun _ _ _ hinv halone hs => hinv.split halone hs)
    (fun _ _ _ hsplit hs => hsplit.step hs) (inv_start hsized) h

/-- After any interleaving of the threads, whatever the manager has done before, there is one context exactly when no
    thread has created one beside another. -/
theorem oneContext_iff (hfd : fd < 64) (files : Nat → Option File) (calls : List FdCall)
    (h : exec (step fd) (fun _ _ => True) (start n ((init files).after calls)) as = some t) :
    OneContext t ↔ exec (step fd) (Alone fd) (start n ((init files).after calls)) as = some t := by
  have hsized : ((init files).after calls).Sized := sized_init.after calls
  constructor
  · intro hone
    refine (exec_alone_iff hfd hsized h).mpr ?_
    rintro ⟨p, hp, q, hq, hne⟩
    exact hne (hone.same p hp q hq)
  · intro halone
    have hinv : Inv fd t := (reach_of_exec halone).invariant (inv_start hsized) fun _ _ _ hinv hok hs => hinv.step hfd hok hs
    exact hinv.oneContext

/-- One thread creates the context before the other one looks. -/
theorem oneContext_iff_two :
    let t := (exec (step 3) (fun _ _ => True) (start 2 ((init fun _ => none).after []))
      [.lookup 0, .create 0, .lookup 1, .setTimeout 0 .recv 500]).get (by decide +kernel)
    OneContext t := by
  intro t
  exact (oneContext_iff (by decide) (fun _ => none) [] (Option.some_get _).symm).mpr rfl

/-- Both threads look before one of them creates the context. -/
theorem two_contexts : ¬∀ fd < 64, ∀ files calls n as (t : FdThreads n),
    exec (step fd) (fun _ _ => True) (start n ((init files).after calls)) as = some t → OneContext t := by
  intro h
  let t := (exec (step 3) (fun _ _ => True) (start 2 ((init fun _ => none).after []))
    [.lookup 0, .lookup 1, .create 0, .create 1]).get (by decide +kernel)
  have hsame := (h 3 (by decide) _ _ 2 _ t (Option.some_get _).symm).same 0 (by decide +kernel) 1 (by decide +kernel)
  exact absurd hsame (by decide)

end FdThreads
end MyHttp
