import MyHttp.Theorems.IOManager.Dispatch

/-! A fiber that waits for an event goes on waiting, or it is scheduled: what every operation on the event table leaves
    of a registration. -/

namespace MyHttp
namespace IOManager

open Scheduler (Work CallbackId)

variable {n : Nat} {s s' s'' : Descriptors n} {ctx ctx' : FdContext} {e e' : Event} {fd fd' i : Nat} {f : FiberId}
  {m : Events} {sc : SchedulerId}

/-- The event is registered for the fiber. -/
def FdContext.Holds (ctx : FdContext) (e : Event) (sc : SchedulerId) (f : FiberId) : Prop :=
  ctx.events.has e = true ∧ ctx.getContext e = ⟨some sc, some f, none⟩

/-- A change of one event leaves the other one alone. -/
theorem FdContext.Holds.other {events : Events} {ec : EventContext} (h : ctx.Holds e sc f) (he : e ≠ e')
    (hevents : events.has e = ctx.events.has e) :
    ({ ctx with events }.setContext e' ec : FdContext).Holds e sc f := by
  refine ⟨?_, ?_⟩
  · rw [FdContext.setContext_events, hevents]
    exact h.1
  · rw [FdContext.getContext_setContext, if_neg (Ne.symm he)]
    cases e with
    | read => exact h.2
    | write => exact h.2

/-- Triggering an event schedules the fiber that waits for it, and leaves the other event alone. -/
theorem FdContext.Holds.trigger {l : List (SchedulerId × Work)} (h : ctx.Holds e sc f)
    (ht : ctx.triggerEvent e' = .ok (ctx', l)) : (e = e' ∧ l = [(sc, .fiber f)]) ∨ ctx'.Holds e sc f := by
  unfold FdContext.triggerEvent at ht
  split at ht
  · by_cases he : e = e'
    · subst he
      rw [h.2] at ht
      obtain ⟨-, hl⟩ := Prod.mk.inj (Except.ok.inj ht)
      exact Or.inl ⟨rfl, hl.symm⟩
    · have hevents : (ctx.events.remove e').has e = ctx.events.has e := by
        rw [Events.has_remove]
        simp [Ne.symm he]
      dsimp only at ht
      split at ht
      · cases ht
      · obtain ⟨rfl, -⟩ := Prod.mk.inj (Except.ok.inj ht)
        exact Or.inr (h.other he hevents)
      · obtain ⟨rfl, -⟩ := Prod.mk.inj (Except.ok.inj ht)
        exact Or.inr (h.other he hevents)
  · cases ht

namespace Descriptors

/-- The fiber waits for the event of the descriptor. -/
def FiberWaits (s : Descriptors n) (fd : Nat) (e : Event) (sc : SchedulerId) (f : FiberId) : Prop :=
  ∃ ctx, s.contexts[fd]? = some ctx ∧ ctx.Holds e sc f

/-- What is scheduled stays so, and who waits goes on waiting or is scheduled. -/
structure Progress (s s' : Descriptors n) : Prop where
  scheduled : ∀ x ∈ s.scheduled, x ∈ s'.scheduled
  waits : ∀ fd e sc f, s.FiberWaits fd e sc f → s'.FiberWaits fd e sc f ∨ (sc, .fiber f) ∈ s'.scheduled

theorem Progress.refl (s : Descriptors n) : Progress s s := ⟨fun _ hx => hx, fun _ _ _ _ h => Or.inl h⟩

/-- Nothing but the contexts and the queue is looked at. -/
theorem Progress.of_eq (hcontexts : s'.contexts = s.contexts) (hscheduled : s'.scheduled = s.scheduled) :
    Progress s s' where
  scheduled x hx := hscheduled ▸ hx
  waits fd e sc f h := by
    unfold FiberWaits at *
    rw [hcontexts]
    exact Or.inl h

theorem Progress.trans (h₁ : Progress s s') (h₂ : Progress s' s'') : Progress s s'' where
  scheduled x hx := h₂.scheduled x (h₁.scheduled x hx)
  waits fd e sc f h := by
    rcases h₁.waits fd e sc f h with h | h
    · exact h₂.waits fd e sc f h
    · exact Or.inr (h₂.scheduled _ h)

theorem Progress.start {u : Descriptors n} (h : Progress u s') (hcontexts : u.contexts = s.contexts)
    (hscheduled : u.scheduled = s.scheduled) : Progress s s' :=
  (Progress.of_eq hcontexts hscheduled).trans h

/-- One context is replaced, and what it held for other events is kept or scheduled. -/
theorem Progress.replace {l : List (SchedulerId × Work)} (hi : s.contexts[i]? = some ctx)
    (hkeep : ∀ e sc f, ctx.Holds e sc f → ctx'.Holds e sc f ∨ (sc, .fiber f) ∈ l)
    (hcontexts : s'.contexts = s.contexts.set i ctx') (hscheduled : s'.scheduled = s.scheduled ++ l) :
    Progress s s' where
  scheduled x hx := by
    rw [hscheduled]
    exact List.mem_append_left _ hx
  waits fd e sc f h := by
    obtain ⟨c, hc, hholds⟩ := h
    obtain ⟨hlt, -⟩ := List.getElem?_eq_some_iff.mp hi
    unfold FiberWaits
    rw [hcontexts, hscheduled]
    by_cases hfd : fd = i
    · subst hfd
      obtain rfl := Option.some.inj (hi.symm.trans hc)
      rw [List.getElem?_set_self hlt]
      rcases hkeep e sc f hholds with hk | hk
      · exact Or.inl ⟨_, rfl, hk⟩
      · exact Or.inr (List.mem_append_right _ hk)
    · rw [List.getElem?_set_ne (Ne.symm hfd)]
      exact Or.inl ⟨c, hc, hholds⟩

theorem progress_trigger (h : s.trigger i e' = .ok s') : Progress s s' := by
  unfold trigger at h
  split at h
  · cases h
  · rename_i ctx hi
    obtain ⟨⟨ctx', l⟩, hr, rfl⟩ := map_ok.mp h
    refine .replace hi (fun e sc f hholds => ?_) rfl rfl
    rcases hholds.trigger hr with ⟨-, hl⟩ | hk
    · exact Or.inr (hl ▸ List.mem_singleton_self _)
    · exact Or.inl hk

/-- The fiber that waits for the event that is triggered is scheduled. -/
theorem FiberWaits.trigger (hw : s.FiberWaits fd e sc f) (h : s.trigger fd e = .ok s') :
    (sc, .fiber f) ∈ s'.scheduled := by
  obtain ⟨ctx, hctx, hholds⟩ := hw
  have hall : FdContext.triggerEvent ctx e = .ok ({ ctx with events := ctx.events.remove e }.setContext e
      { ctx.getContext e with fiber := none, scheduler := none }, [(sc, .fiber f)]) := by
    unfold FdContext.triggerEvent
    rw [if_pos hholds.1, hholds.2]
    rfl
  unfold Descriptors.trigger at h
  rw [hctx] at h
  dsimp only at h
  rw [hall] at h
  obtain rfl := Except.ok.inj h
  exact List.mem_append_right _ (List.mem_singleton_self _)

theorem triggerAll_eq : s.triggerAll i m = (if m.read then s.trigger i .read else .ok s) >>=
    fun s => if m.write then s.trigger i .write else .ok s := by
  unfold triggerAll
  cases m.read <;> rfl

theorem progress_triggerAll (h : s.triggerAll i m = .ok s') : Progress s s' := by
  rw [triggerAll_eq] at h
  obtain ⟨u, hu, h⟩ := Lib.Run.bind_eq_ok.mp h
  have hfirst : Progress s u := by
    split at hu
    · exact progress_trigger hu
    · obtain rfl := Except.ok.inj hu
      exact .refl _
  refine hfirst.trans ?_
  split at h
  · exact progress_trigger h
  · obtain rfl := Except.ok.inj h
    exact .refl _

theorem progress_dispatch {r : Report} (h : s.dispatch r = .ok s') : Progress s s' := by
  unfold dispatch at h
  split at h
  · obtain rfl := Except.ok.inj h
    exact .refl _
  · split at h
    · cases h
    · dsimp only at h
      split at h
      · obtain rfl := Except.ok.inj h
        exact .refl _
      · split at h
        · obtain rfl := Except.ok.inj h
          exact .refl _
        · exact (progress_triggerAll h).start rfl rfl

theorem progress_cancelEvent {r : Bool × Descriptors n} (h : s.cancelEvent fd e = .ok r) : Progress s r.2 := by
  unfold cancelEvent at h
  split at h
  · obtain rfl := Except.ok.inj h
    exact .refl _
  · split at h
    · dsimp only at h
      split at h
      · obtain rfl := Except.ok.inj h
        exact .refl _
      · obtain ⟨u, hu, rfl⟩ := map_ok.mp h
        exact (progress_trigger hu).start rfl rfl
    · obtain rfl := Except.ok.inj h
      exact .refl _

theorem epollCtl_isSome {epoll : Epoll} {k : Events} (h : (epoll fd).isSome) :
    ∃ epoll', epollCtl epoll (if m = .none then .del else .mod) fd k = some epoll' := by
  obtain ⟨armed, harmed⟩ := Option.isSome_iff_exists.mp h
  unfold epollCtl
  rw [harmed]
  split_ifs
  · exact ⟨_, rfl⟩
  · exact ⟨_, rfl⟩

/-- A cancellation that `epoll_ctl` lets through schedules the fiber that waits. -/
theorem FiberWaits.cancelEvent {r : Bool × Descriptors n} (hw : s.FiberWaits fd e sc f)
    (harmed : (s.epoll fd).isSome) (h : s.cancelEvent fd e = .ok r) : (sc, .fiber f) ∈ r.2.scheduled := by
  obtain ⟨ctx, hctx, hholds⟩ := hw
  obtain ⟨epoll, hctl⟩ := epollCtl_isSome (m := ctx.events.remove e) (k := ctx.events.remove e) harmed
  unfold Descriptors.cancelEvent at h
  rw [hctx] at h
  dsimp only at h
  rw [if_pos hholds.1, hctl] at h
  obtain ⟨u, hu, rfl⟩ := map_ok.mp h
  exact FiberWaits.trigger (s := { s with epoll }) ⟨ctx, hctx, hholds⟩ hu

theorem progress_cancelAll {r : Bool × Descriptors n} (h : s.cancelAll fd = .ok r) : Progress s r.2 := by
  unfold cancelAll at h
  split at h
  · obtain rfl := Except.ok.inj h
    exact .refl _
  · split at h
    · obtain rfl := Except.ok.inj h
      exact .refl _
    · split at h
      · obtain rfl := Except.ok.inj h
        exact .refl _
      · obtain ⟨u, hu, rfl⟩ := map_ok.mp h
        exact (progress_triggerAll hu).start rfl rfl

theorem progress_grow (s : Descriptors n) (fd : Nat) : Progress s (s.grow fd) := by
  unfold grow
  split
  · exact .refl _
  · rename_i hfd
    refine ⟨fun _ hx => hx, fun i e sc f hw => ?_⟩
    obtain ⟨ctx, hctx, hholds⟩ := hw
    obtain ⟨hlt, -⟩ := List.getElem?_eq_some_iff.mp hctx
    refine Or.inl ⟨ctx, ?_, hholds⟩
    dsimp only
    rw [contextResize_eq (by omega), List.getElem?_append_left hlt, hctx]

/-- A registration that succeeds is there, and the others are kept. -/
theorem progress_addEvent {ok refused : Bool} (h : s.addEvent fd e (some sc) f none refused = .ok (ok, s')) :
    Progress s s' ∧ (ok = true → s'.FiberWaits fd e sc f) := by
  unfold addEvent at h
  dsimp only at h
  have hgrow := progress_grow s fd
  split at h
  · cases h
  · rename_i ctx hctx
    split at h
    · cases h
    · rename_i hnot
      split at h
      · obtain ⟨rfl, rfl⟩ := Prod.mk.inj (Except.ok.inj h)
        exact ⟨hgrow, nofun⟩
      · split at h
        · obtain ⟨rfl, rfl⟩ := Prod.mk.inj (Except.ok.inj h)
          have hadd : ∀ e', (ctx.events.add e).has e' = (ctx.events.has e' || decide (e = e')) := fun e' =>
            Events.has_add
          refine ⟨hgrow.trans (.replace (l := []) hctx (fun e' sc' f' hholds => Or.inl ?_) rfl (by simp [setContext])),
            fun _ => ⟨_, List.getElem?_set_self (List.getElem?_eq_some_iff.mp hctx).1, ?_, ?_⟩⟩
          · have hne : e' ≠ e := by
              rintro rfl
              exact hnot hholds.1
            refine hholds.other hne ?_
            rw [hadd, hholds.1, Bool.true_or]
          · rw [FdContext.setContext_events, hadd]
            simp
          · rw [FdContext.getContext_setContext, if_pos rfl]
        · cases h

/-- What `epoll_ctl` refuses is not registered. -/
theorem addEvent_refused {ok : Bool} {cb : Option CallbackId} (h : s.addEvent fd e (some sc) f cb true = .ok (ok, s')) :
    ok = false := by
  unfold addEvent at h
  dsimp only at h
  split at h
  · cases h
  · split at h
    · cases h
    · rw [if_pos rfl] at h
      exact (Prod.mk.inj (Except.ok.inj h)).1.symm

/-- The steps of the workers. -/
theorem progress_step {a : IoAct n} (ha : ∀ c, a ≠ .call c) (h : s.step a = some s') : Progress s s' := by
  cases a with
  | call c => exact (ha c rfl).elim
  | wait w reports =>
    obtain ⟨-, h⟩ := Option.ite_none_right_eq_some.mp h
    obtain rfl := Option.some.inj h
    exact .of_eq rfl rfl
  | dispatch w =>
    unfold step at h
    dsimp only at h
    split at h
    · cases h
    · exact (progress_dispatch (toOption_eq_some.mp h)).start rfl rfl

end Descriptors
end IOManager
end MyHttp
