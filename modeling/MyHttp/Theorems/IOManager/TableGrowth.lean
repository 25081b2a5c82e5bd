import MyHttp.IOManager.FdTable
import MyHttp.Lib.Run

/-! The table of contexts only grows, as long as a thread that waits for the write lock does not find a table that
    has become larger than the one it is about to ask for. -/

namespace MyHttp
namespace IOManager

/-! ### Bodies do not touch the table -/

namespace Body

variable {b : Body} {e : Event} {m : Events} {op : Operation} {refused : Bool} {fd : Nat}

theorem ok_range {α : Type} {a : α} : (.ok a : Except Fault α) ≠ .error .range := nofun

theorem map_range {α β : Type} {x : Except Fault α} {f : α → β} (h : x ≠ .error .range) : x.map f ≠ .error .range := by
  cases x with
  | ok a => exact ok_range
  | error g => exact fun hx => h (congrArg Except.error (Except.error.inj hx))

theorem trigger_range : b.trigger e ≠ .error .range := by
  refine map_range ?_
  unfold FdContext.triggerEvent
  dsimp only
  split
  · split <;> exact nofun
  · exact nofun

theorem triggerAll_range : b.triggerAll m ≠ .error .range := by
  obtain ⟨r, w⟩ := m
  have hwrite : ∀ b : Body, (if w then b.trigger .write else .ok b) ≠ .error .range := fun b => by
    cases w
    · exact ok_range
    · exact trigger_range
  cases r
  · exact hwrite b
  · unfold triggerAll
    rw [if_pos rfl]
    cases h : b.trigger .read with
    | ok b' => exact hwrite b'
    | error f => exact fun hf => trigger_range (h.trans (congrArg Except.error (Except.error.inj hf)))

theorem run_range : b.run refused op ≠ .error .range := by
  cases op with
  | addEvent fd e caller fiber cb =>
    simp only [run, addEvent]
    split
    · exact nofun
    · split
      · exact ok_range
      · split <;> exact nofun
  | delEvent fd e => exact ok_range
  | cancelEvent fd e =>
    simp only [run, cancelEvent]
    split
    · split
      · exact ok_range
      · exact map_range trigger_range
    · exact ok_range
  | cancelAll fd =>
    simp only [run, cancelAll]
    split
    · exact ok_range
    · split
      · exact ok_range
      · exact map_range triggerAll_range

theorem dispatch_range {mask : Mask} : b.dispatch mask refused ≠ .error .range := by
  simp only [dispatch]
  split
  · exact ok_range
  · split
    · exact ok_range
    · exact map_range triggerAll_range

end Body

namespace FdTable

open Lib.Run

variable {s s' s₀ : FdTable} {t t' o : Nat} {op : Operation} {pc : CallPc}

/-- The size a thread resizes to is not below the size of the table. -/
def Grows (s : FdTable) : TableAct → Prop
  | .grow t => match s.threads t with
    | .resize op => s.contexts.length ≤ op.fd * 3 / 2
    | _ => True
  | _ => True

instance (s : FdTable) (a : TableAct) : Decidable (Grows s a) := by
  induction a using TableAct.casesOn <;> dsimp only [Grows]
  case grow t => induction s.threads t using CallPc.casesOn <;> infer_instance
  all_goals infer_instance

/-! ### What a step does -/

@[simp] theorem setThread_contexts : (s.setThread t pc).contexts = s.contexts := rfl

@[simp] theorem setThread_objects : (s.setThread t pc).objects = s.objects := rfl

@[simp] theorem setThread_self : (s.setThread t pc).threads t = pc := Function.update_self ..

theorem setThread_ne (h : t' ≠ t) : (s.setThread t pc).threads t' = s.threads t' := Function.update_of_ne h ..

/-- Everything but the thread of the step is as before, and what is changed is what a body may change. -/
theorem finish_eq (r : Except Fault (Bool × Body)) :
    (∃ ok b, r = .ok (ok, b) ∧ s.finish t o r = (s.setBody o b).setThread t (.returned ok)) ∨
      ∃ f, r = .error f ∧ s.finish t o r = s.setThread t (.fault f) := by
  cases r with
  | ok x => exact Or.inl ⟨x.1, x.2, rfl, rfl⟩
  | error f => exact Or.inr ⟨f, rfl, rfl⟩

theorem step_call (h : s.step (.call t op) = some s') : idleThread (s.threads t) = true ∧ s' = s.call t op := by
  simp only [step] at h
  split at h
  · exact ⟨by assumption, (Option.some.inj h).symm⟩
  · cases h

theorem step_grow (h : s.step (.grow t) = some s') :
    ∃ op, s.threads t = .resize op ∧ s' = (s.contextResize (op.fd * 3 / 2)).access t op := by
  simp only [step] at h
  split at h
  case h_1 op hpc => exact ⟨op, hpc, (Option.some.inj h).symm⟩
  case h_2 => cases h

theorem step_body {refused : Bool} (h : s.step (.body t refused) = some s') :
    ∃ op o ctx, s.threads t = .body op o ∧ s.objects[o]? = some ctx ∧
      s' = s.finish t o ((s.toBody ctx).run refused op) := by
  simp only [step] at h
  split at h
  case h_1 op o hpc =>
    obtain ⟨ctx, hctx, rfl⟩ := Option.map_eq_some_iff.mp h
    exact ⟨op, o, ctx, hpc, hctx, rfl⟩
  case h_2 => cases h

theorem step_dispatch {mask : Mask} {refused : Bool} (h : s.step (.dispatch t o mask refused) = some s') :
    idleThread (s.threads t) = true ∧ ∃ ctx, s.objects[o]? = some ctx ∧
      s' = s.finish t o ((s.toBody ctx).dispatch mask refused) := by
  simp only [step] at h
  split at h
  · obtain ⟨ctx, hctx, rfl⟩ := Option.map_eq_some_iff.mp h
    exact ⟨by assumption, ctx, hctx, rfl⟩
  · cases h

theorem access_eq (h : op.fd < s.contexts.length) :
    ∃ o, s.contexts[op.fd]? = some o ∧ s.access t op = s.setThread t (.body op o) := by
  have hget := List.getElem?_eq_getElem h
  exact ⟨_, hget, by rw [access, hget]⟩

/-! ### The table -/

/-- Every context has the index of its place; a thread that is to resize asks for more than its own place, and one
    that has a pointer has the one in its place. -/
structure Table (s : FdTable) : Prop where
  identity : s.contexts = List.range s.objects.length
  size : 32 ≤ s.contexts.length
  resize : ∀ t op, s.threads t = .resize op → 32 ≤ op.fd
  body : ∀ t op o, s.threads t = .body op o → s.contexts[op.fd]? = some o
  range : ∀ t, s.threads t ≠ .fault .range

theorem contextResize_contexts (h : s.contexts = List.range s.objects.length) {size : Nat}
    (hsize : s.contexts.length ≤ size) :
    (s.contextResize size).contexts = List.range size ∧ (s.contextResize size).objects.length = size := by
  have hlen : s.contexts.length = s.objects.length := by rw [h, List.length_range]
  constructor
  · rw [contextResize]
    dsimp only
    rw [List.take_of_length_le hsize, hlen, h, ← List.range_add, Nat.add_sub_cancel' (hlen ▸ hsize)]
  · simp only [contextResize, List.length_append, List.length_map, List.length_range]
    omega

theorem table_init : Table init := by
  refine ⟨by decide, by decide, ?_, ?_, ?_⟩ <;> intros <;> simp_all [init, contextResize]

/-- A thread goes on; the table stays, or grows. -/
theorem Table.thread (h : Table s) (hident : s'.contexts = List.range s'.objects.length)
    (hgrow : s.contexts <+: s'.contexts) (hthreads : ∀ t' ≠ t, s'.threads t' = s.threads t')
    (hresize : ∀ op, s'.threads t = .resize op → 32 ≤ op.fd)
    (hbody : ∀ op o, s'.threads t = .body op o → s'.contexts[op.fd]? = some o)
    (hrange : s'.threads t ≠ .fault .range) : Table s' := by
  have hkeep : ∀ {i o : Nat}, s.contexts[i]? = some o → s'.contexts[i]? = some o := fun {i o} hi => by
    obtain ⟨rest, hrest⟩ := hgrow
    rw [← hrest, List.getElem?_append_left (List.getElem?_eq_some_iff.mp hi).1, hi]
  refine ⟨hident, Nat.le_trans h.size hgrow.length_le, fun t' op ht' => ?_, fun t' op o ht' => ?_, fun t' => ?_⟩ <;>
    by_cases hne : t' = t
  · exact hresize op (hne ▸ ht')
  · exact h.resize t' op (hthreads t' hne ▸ ht')
  · exact hbody op o (hne ▸ ht')
  · exact hkeep (h.body t' op o (hthreads t' hne ▸ ht'))
  · exact hne ▸ hrange
  · rw [hthreads t' hne]
    exact h.range t'

theorem Table.access (h : Table s) (hfd : op.fd < s.contexts.length) : Table (s.access t op) := by
  obtain ⟨o, ho, heq⟩ := access_eq (t := t) hfd
  rw [heq]
  refine h.thread h.identity (List.prefix_refl _) (fun _ hne => setThread_ne hne) ?_ ?_ ?_ <;> rw [setThread_self]
  · intro op' hop
    cases hop
  · intro op' o' hop
    cases hop
    exact ho
  · exact CallPc.noConfusion

theorem Table.finish (h : Table s) {r : Except Fault (Bool × Body)} (hr : r ≠ .error .range) : Table (s.finish t o r) := by
  rcases finish_eq (s := s) (t := t) (o := o) r with ⟨ok, b, -, heq⟩ | ⟨f, rfl, heq⟩ <;> rw [heq]
  · refine h.thread (t := t) ?_ (List.prefix_refl _) (fun _ hne => setThread_ne hne) ?_ ?_ ?_
    · rw [setThread_objects, setBody, List.length_set]
      exact h.identity
    all_goals rw [setThread_self]
    · intro op hop
      cases hop
    · intro op o hop
      cases hop
    · exact CallPc.noConfusion
  · refine h.thread h.identity (List.prefix_refl _) (fun _ hne => setThread_ne hne) ?_ ?_ ?_ <;> rw [setThread_self]
    · intro op hop
      cases hop
    · intro op o hop
      cases hop
    · intro hf
      cases hf
      exact hr rfl

theorem Table.call (h : Table s) : Table (s.call t op) := by
  unfold FdTable.call
  split
  · exact h.access (by assumption)
  · rename_i hfd
    have hsize := h.size
    have hreturn : Table (s.setThread t (.returned false)) := by
      refine h.thread h.identity (List.prefix_refl _) (fun _ hne => setThread_ne hne) ?_ ?_ ?_ <;> rw [setThread_self]
      · intro op hop
        cases hop
      · intro op o hop
        cases hop
      · exact CallPc.noConfusion
    split
    · refine h.thread h.identity (List.prefix_refl _) (fun _ hne => setThread_ne hne) ?_ ?_ ?_ <;> rw [setThread_self]
      · intro op hop
        cases hop
        omega
      · intro op o hop
        cases hop
      · exact CallPc.noConfusion
    · exact hreturn

/-- The place of the thread is in the table it has made. -/
theorem Table.grow (h : Table s) (hop : s.threads t = .resize op) (hgrow : s.contexts.length ≤ op.fd * 3 / 2) :
    Table ((s.contextResize (op.fd * 3 / 2)).access t op) ∧
      s.contexts <+: ((s.contextResize (op.fd * 3 / 2)).access t op).contexts := by
  obtain ⟨hcontexts, hobjects⟩ := contextResize_contexts h.identity hgrow
  have hfd := h.resize t op hop
  have hlt : op.fd < (s.contextResize (op.fd * 3 / 2)).contexts.length := by
    rw [hcontexts, List.length_range]
    omega
  have hgrown : s.contexts <+: (s.contextResize (op.fd * 3 / 2)).contexts := by
    have hlen := congrArg List.length h.identity
    rw [List.length_range] at hlen
    obtain ⟨k, hk⟩ := Nat.exists_eq_add_of_le (hlen ▸ hgrow)
    rw [hcontexts, h.identity, hk, List.range_add]
    exact List.prefix_append ..
  obtain ⟨o, ho, heq⟩ := access_eq (t := t) hlt
  rw [heq]
  refine ⟨h.thread (t := t) ?_ hgrown (fun _ hne => setThread_ne hne) ?_ ?_ ?_, hgrown⟩
  · rw [setThread_contexts, setThread_objects, hcontexts, hobjects]
  all_goals rw [setThread_self]
  · intro op' hop'
    cases hop'
  · intro op' o' hop'
    cases hop'
    exact ho
  · exact CallPc.noConfusion

theorem call_contexts : (s.call t op).contexts = s.contexts := by
  unfold call access
  split
  · split <;> rfl
  · split <;> rfl

theorem finish_contexts {r : Except Fault (Bool × Body)} : (s.finish t o r).contexts = s.contexts := by
  rcases finish_eq (s := s) (t := t) (o := o) r with ⟨ok, b, -, heq⟩ | ⟨f, -, heq⟩ <;> rw [heq] <;> rfl

theorem Table.step (h : Table s) {a : TableAct} (hok : Grows s a) (hs : s.step a = some s') :
    Table s' ∧ s.contexts <+: s'.contexts := by
  cases a with
  | call t op =>
    obtain ⟨-, rfl⟩ := step_call hs
    exact ⟨h.call, call_contexts ▸ List.prefix_refl _⟩
  | grow t =>
    obtain ⟨op, hop, rfl⟩ := step_grow hs
    simp only [Grows, hop] at hok
    exact h.grow hop hok
  | body t refused =>
    obtain ⟨op, o, ctx, -, -, rfl⟩ := step_body hs
    exact ⟨h.finish Body.run_range, finish_contexts ▸ List.prefix_refl _⟩
  | dispatch t o mask refused =>
    obtain ⟨-, ctx, -, rfl⟩ := step_dispatch hs
    exact ⟨h.finish Body.dispatch_range, finish_contexts ▸ List.prefix_refl _⟩

theorem table_of_reach (h : Reach step Grows init s) : Table s :=
  h.invariant table_init fun _ _ _ hi hok hs => (hi.step hok hs).1

/-- From one state to a later one the table only grows. Every place that is there keeps its context, and every
    access is inside the table. -/
theorem table_grows (h₀ : Reach step Grows init s₀) (h : Reach step Grows s₀ s) :
    s₀.contexts <+: s.contexts ∧
      (∀ t op o, s.threads t = .body op o → s.contexts[op.fd]? = some o ∧
        ∀ o₀, s₀.contexts[op.fd]? = some o₀ → o = o₀) ∧
      ∀ t, s.threads t ≠ .fault .range := by
  have htable := table_of_reach (h₀.trans h)
  have hgrown : s₀.contexts <+: s.contexts := by
    refine (h.invariant (P := fun s : FdTable => Table s ∧ s₀.contexts <+: s.contexts) ⟨table_of_reach h₀, List.prefix_refl _⟩
      fun _ _ _ hi hok hs => ?_).2
    obtain ⟨htable, hgrow⟩ := hi.1.step hok hs
    exact ⟨htable, hi.2.trans hgrow⟩
  refine ⟨hgrown, fun t op o ht => ⟨htable.body t op o ht, fun o₀ ho₀ => ?_⟩, htable.range⟩
  obtain ⟨rest, hrest⟩ := hgrown
  have ho := htable.body t op o ht
  rw [← hrest, List.getElem?_append_left (List.getElem?_eq_some_iff.mp ho₀).1, ho₀] at ho
  exact (Option.some.inj ho).symm

/-- Two threads grow the table one after the other. -/
theorem table_grows_twice : ∃ s : FdTable, s.contexts.length = 150 ∧ init.contexts <+: s.contexts := by
  let s : FdTable := (exec step Grows init [.call 0 (.addEvent 40 .read (some 0) 0 none),
    .call 1 (.addEvent 100 .read (some 0) 1 none), .grow 0, .body 0 false, .grow 1]).get (by decide +kernel)
  exact ⟨s, by decide +kernel, (table_grows .start (reach_of_exec (Option.some_get _).symm)).1⟩

/-- The thread with the smaller descriptor takes the write lock last: the table shrinks. -/
theorem table_shrinks : ¬∀ s₀ s : FdTable, Reach step (fun _ _ => True) init s₀ → Reach step (fun _ _ => True) s₀ s →
    s₀.contexts <+: s.contexts := by
  intro h
  let s₀ := (exec step (fun _ _ => True) init [.call 0 (.addEvent 40 .read (some 0) 0 none),
    .call 1 (.addEvent 100 .read (some 0) 1 none), .grow 1]).get (by decide +kernel)
  let s := (exec step (fun _ _ => True) s₀ [.grow 0]).get (by decide +kernel)
  have hle := (h s₀ s (reach_of_exec (Option.some_get _).symm) (reach_of_exec (Option.some_get _).symm)).length_le
  exact absurd hle (by decide +kernel)

end FdTable
end IOManager
end MyHttp
