import MyHttp.Theorems.Http.PoolAccounting

/-! What a pool keeps of its limits: how many connections it holds, how often it returns one, and how old one may be.
    The first is not looked at, the second is looked at one use too late, and the third is measured from zero. -/

namespace MyHttp
namespace Http

open Lib Lib.Machine Lib.Run

/-- The calls that have a connection to return, and those that bring one back before `m_request` is raised. -/
def PoolPc.pending : PoolPc → List Nat
  | .delete _ _ found => found.toList
  | .add c | .hand c => [c]
  | _ => []

def PoolPc.due : PoolPc → List Nat
  | .request c => [c]
  | _ => []

namespace HttpConnectionPool

variable {n : Nat} {s t : HttpConnectionPool n} {i : Fin n} {a : PoolAct n} {c now : Nat}
  {maxSize maxAliveTime maxRequest : UInt32} {clock : Nat}

/-! ### The parameters -/

/-- The parameters of the constructor stay. -/
structure Params (maxSize maxAliveTime maxRequest : UInt32) (s : HttpConnectionPool n) : Prop where
  maxSize : s.maxSize = maxSize
  maxAliveTime : s.maxAliveTime = maxAliveTime
  maxRequest : s.maxRequest = maxRequest

theorem step_params (hs : s.step a = some t) : t.maxSize = s.maxSize ∧ t.maxAliveTime = s.maxAliveTime ∧
    t.maxRequest = s.maxRequest := by
  cases step_steps hs with
  | run hm => cases hm <;> exact ⟨rfl, rfl, rfl⟩
  | _ => exact ⟨rfl, rfl, rfl⟩

theorem Params.step (h : s.Params maxSize maxAliveTime maxRequest) (hs : s.step a = some t) :
    t.Params maxSize maxAliveTime maxRequest := by
  obtain ⟨hsize, halive, hrequest⟩ := step_params hs
  exact ⟨hsize.trans h.maxSize, halive.trans h.maxAliveTime, hrequest.trans h.maxRequest⟩

theorem reach_params {ok : HttpConnectionPool n → PoolAct n → Prop}
    (h : Reach step ok (init n maxSize maxAliveTime maxRequest clock) s) : s.Params maxSize maxAliveTime maxRequest :=
  h.invariant (P := Params maxSize maxAliveTime maxRequest) ⟨rfl, rfl, rfl⟩ fun _ _ _ hs _ hstep => hs.step hstep

/-! ### How many connections are kept -/

/-- A connection is put back while there is room for it. -/
def Room (s : HttpConnectionPool n) : PoolAct n → Prop
  | .run i =>
    match s.threads i with
    | .keep _ => s.conns.length < s.maxSize.toNat
    | _ => True
  | _ => True

instance (s : HttpConnectionPool n) (a : PoolAct n) : Decidable (s.Room a) := by
  induction a using PoolAct.casesOn with
  | run i =>
    dsimp only [Room]
    induction s.threads i using PoolPc.casesOn <;> infer_instance
  | _ => unfold Room; infer_instance

theorem length_pop (s : HttpConnectionPool n) (now : Nat) : (s.pop now).conns.length ≤ s.conns.length := by
  have hsplit := congrArg List.length (s.conns_split now)
  rw [List.length_append, List.length_append] at hsplit
  omega

/-- Only a release that puts a connection back makes the list longer. -/
theorem step_conns (hs : s.step a = some t) : t.conns.length ≤ s.conns.length ∧ s.Room a ∨
    t.conns.length = s.conns.length + 1 ∧ (s.Room a ↔ s.conns.length < s.maxSize.toNat) := by
  cases step_steps hs with
  | run hm =>
    cases hm with
    | pop hpc => exact Or.inl ⟨length_pop s _, by simp only [Room, hpc]⟩
    | keep hpc => exact Or.inr ⟨List.length_append, by simp only [Room, hpc]⟩
    | delete hpc | subtractInvalid hpc | add hpc | hand hpc | request hpc | dropped hpc | kept hpc | discard hpc
    | subtract hpc => exact Or.inl ⟨Nat.le_refl _, by simp only [Room, hpc]⟩
  | _ => exact Or.inl ⟨Nat.le_refl _, trivial⟩

/-- Who has been returned and not brought back to the counter. -/
def due (s : HttpConnectionPool n) (c : Nat) : Nat :=
  s.leased.count c + Count.total (fun pc => pc.due.count c) s.threads

def pending (s : HttpConnectionPool n) (c : Nat) : Nat := Count.total (fun pc => pc.pending.count c) s.threads

/-- A connection that is taken out of the list has a use left. -/
def Unspent (s : HttpConnectionPool n) : PoolAct n → Prop
  | .run i =>
    match s.threads i with
    | .lock now => ∀ c ∈ s.found now, (s.object c).request < s.maxRequest.toNat
    | _ => True
  | _ => True

instance (s : HttpConnectionPool n) (a : PoolAct n) : Decidable (s.Unspent a) := by
  induction a using PoolAct.casesOn with
  | run i =>
    dsimp only [Unspent]
    induction s.threads i using PoolPc.casesOn <;> infer_instance
  | _ => unfold Unspent; infer_instance

/-- `m_request` is behind the number of times a connection was returned by those that were not brought back. -/
structure Limited (maxRequest : UInt32) (s : HttpConnectionPool n) : Prop where
  leases : ∀ c, (s.object c).leases = (s.object c).request + s.due c
  bound : ∀ c, (s.object c).request + s.due c + s.pending c ≤ maxRequest.toNat

theorem Limited.init (maxSize maxAliveTime maxRequest : UInt32) (clock : Nat) :
    (init n maxSize maxAliveTime maxRequest clock).Limited maxRequest := by
  have hdue : ∀ c, (HttpConnectionPool.init n maxSize maxAliveTime maxRequest clock).due c = 0 := fun c =>
    (Nat.zero_add _).trans (Count.total_zero fun _ => rfl)
  have hpending : ∀ c, (HttpConnectionPool.init n maxSize maxAliveTime maxRequest clock).pending c = 0 := fun c =>
    Count.total_zero fun _ => rfl
  refine ⟨fun c => ?_, fun c => ?_⟩
  · rw [hdue]
    rfl
  · rw [hdue, hpending]
    exact Nat.zero_le _

/-- A step of a thread that moves the returns of a connection between the counters. -/
theorem Limited.of_goto (h : s.Limited maxRequest) {u : HttpConnectionPool n} {pc : PoolPc} (hu : u.threads = s.threads)
    (hleases : ∀ c, (u.object c).leases + (s.object c).request + s.leased.count c + (s.threads i).due.count c =
      (s.object c).leases + (u.object c).request + u.leased.count c + pc.due.count c)
    (hbound : ∀ c, (u.object c).request + u.leased.count c + pc.due.count c + pc.pending.count c ≤
        (s.object c).request + s.leased.count c + (s.threads i).due.count c + (s.threads i).pending.count c ∨
      (u.object c).request + (s.due c + s.pending c) + 1 ≤ maxRequest.toNat ∧
        u.leased.count c + pc.due.count c + pc.pending.count c ≤
          s.leased.count c + (s.threads i).due.count c + (s.threads i).pending.count c + 1) :
    (u.goto i pc).Limited maxRequest := by
  have hdue : ∀ c, (u.goto i pc).due c + s.leased.count c + (s.threads i).due.count c =
      s.due c + u.leased.count c + pc.due.count c := by
    intro c
    have htotal := total_goto (s := u) (i := i) (fun pc => pc.due.count c) pc
    rw [hu] at htotal
    unfold due
    show u.leased.count c + _ + _ + _ = _
    omega
  have hpending : ∀ c, (u.goto i pc).pending c + (s.threads i).pending.count c = s.pending c + pc.pending.count c := by
    intro c
    have htotal := total_goto (s := u) (i := i) (fun pc => pc.pending.count c) pc
    rwa [hu] at htotal
  refine ⟨fun c => ?_, fun c => ?_⟩
  · have hold := h.leases c
    have hnew := hleases c
    have hd := hdue c
    show (u.object c).leases = (u.object c).request + _
    omega
  · have hold := h.bound c
    have hd := hdue c
    have hp := hpending c
    show (u.object c).request + _ + _ ≤ _
    rcases hbound c with hle | ⟨hroom, hle⟩ <;> omega

theorem due_pending_le (s : HttpConnectionPool n) (c : Nat) : s.due c + s.pending c ≤ s.leasedTo c := by
  have hpc : ∀ pc : PoolPc, pc.due.count c + pc.pending.count c ≤ pc.holds.count c := fun pc => by
    cases pc <;> simp [PoolPc.due, PoolPc.pending, PoolPc.holds]
  have hle := Count.total_add_le hpc s.threads
  unfold due pending leasedTo
  omega

/-- A connection in the list is with nobody. -/
theorem Accounted.idle_free (h : s.Accounted) (hc : c ∈ s.conns) : s.leasedTo c = 0 := by
  have hplaces := h.made c
  have hidle : 0 < s.idle c := List.count_pos_iff.mpr hc
  unfold places at hplaces
  split at hplaces <;> omega

/-- A connection that is not made is nowhere. -/
theorem Accounted.fresh_free (h : s.Accounted) : s.leasedTo s.made = 0 := by
  have hplaces := h.made s.made
  rw [if_neg (Nat.lt_irrefl _)] at hplaces
  unfold places at hplaces
  omega

theorem found_mem (h : c ∈ s.found now) : c ∈ s.conns := by
  rw [s.conns_split now, List.mem_append, List.mem_append]
  exact Or.inr (Or.inl (Option.mem_toList.mpr h))

theorem afterDelete_pending (found : Option Nat) : (afterDelete found).pending = found.toList := by cases found <;> rfl

theorem afterDelete_due (found : Option Nat) : (afterDelete found).due = [] := by cases found <;> rfl

theorem setObject_self (o : HttpConnection) : (s.setObject c o).object c = o := Function.update_self ..

theorem setObject_of_ne {b : Nat} (o : HttpConnection) (h : b ≠ c) : (s.setObject c o).object b = s.object b :=
  Function.update_of_ne h ..

theorem Limited.moves (h : s.Limited maxRequest) (hacc : s.Accounted) (hparam : s.maxRequest = maxRequest)
    (hok : s.Unspent (.run i)) (hm : Moves s i t) : t.Limited maxRequest := by
  cases hm with
  | pop hpc =>
    rename_i now
    simp only [Unspent, hpc] at hok
    refine h.of_goto rfl (fun c => ?_) (fun c => ?_) <;> rw [hpc]
    · rfl
    · by_cases hc : c ∈ s.found now
      · right
        have hfree := hacc.idle_free (found_mem hc)
        have hdue := due_pending_le s c
        have hlt := hok c hc
        rw [hparam] at hlt
        have hfound : (s.found now).toList.count c = 1 := by
          rw [show s.found now = some c from hc]
          simp
        refine ⟨?_, ?_⟩
        · show (s.object c).request + _ + 1 ≤ _
          omega
        · show s.leased.count c + 0 + (s.found now).toList.count c ≤ _
          rw [hfound]
          simp [PoolPc.due, PoolPc.pending]
      · left
        have hfound : (s.found now).toList.count c = 0 :=
          List.count_eq_zero.mpr fun hmem => hc (Option.mem_toList.mp hmem)
        show (s.object c).request + s.leased.count c + 0 + (s.found now).toList.count c ≤ _
        rw [hfound]
        simp [PoolPc.due, PoolPc.pending]
  | subtractInvalid hpc =>
    refine h.of_goto rfl (fun c => ?_) (fun c => Or.inl ?_) <;> rw [hpc, afterDelete_due]
    · rfl
    · rw [afterDelete_pending]
      exact Nat.le_refl _
  | hand hpc =>
    rename_i c
    refine h.of_goto rfl (fun b => ?_) (fun b => Or.inl ?_) <;> rw [hpc]
    · by_cases hb : b = c
      · subst hb
        rw [setObject_self]
        simp only [setObject, PoolPc.due, List.count_append, List.count_singleton_self, List.count_nil]
        omega
      · rw [setObject_of_ne _ hb]
        simp [setObject, PoolPc.due, List.count_append, Ne.symm hb]
    · by_cases hb : b = c
      · subst hb
        rw [setObject_self]
        simp only [setObject, PoolPc.due, PoolPc.pending, List.count_append, List.count_singleton_self, List.count_nil]
        omega
      · rw [setObject_of_ne _ hb]
        simp [setObject, PoolPc.due, PoolPc.pending, List.count_append, Ne.symm hb]
  | request hpc =>
    rename_i c
    refine h.of_goto rfl (fun b => ?_) (fun b => Or.inl ?_) <;> rw [hpc]
    · by_cases hb : b = c
      · subst hb
        rw [setObject_self]
        simp only [setObject, PoolPc.due, List.count_singleton_self, List.count_nil]
        omega
      · rw [setObject_of_ne _ hb]
        simp [setObject, PoolPc.due, Ne.symm hb]
    · by_cases hb : b = c
      · subst hb
        rw [setObject_self]
        simp only [setObject, PoolPc.due, PoolPc.pending, List.count_singleton_self, List.count_nil]
        omega
      · rw [setObject_of_ne _ hb]
        simp [setObject, PoolPc.due, PoolPc.pending, Ne.symm hb]
  | delete hpc | add hpc | dropped hpc | kept hpc | discard hpc | subtract hpc | keep hpc =>
    exact h.of_goto rfl (fun c => by rw [hpc]; rfl) (fun c => Or.inl (by rw [hpc]; exact Nat.le_refl _))

/-- A closed socket changes nothing that is counted. -/
theorem close_object (s : HttpConnectionPool n) (b c : Nat) :
    ((s.setObject c { s.object c with connected := false }).object b).leases = (s.object b).leases ∧
      ((s.setObject c { s.object c with connected := false }).object b).request = (s.object b).request := by
  by_cases hb : b = c
  · subst hb
    rw [setObject_self]
    exact ⟨rfl, rfl⟩
  · rw [setObject_of_ne _ hb]
    exact ⟨rfl, rfl⟩

theorem Limited.step (h : s.Limited maxRequest) (hacc : s.Accounted) (hparam : s.maxRequest = maxRequest)
    (hmax : 1 ≤ maxRequest.toNat) (hok : s.Unspent a) (hs : s.step a = some t) : t.Limited maxRequest := by
  cases step_steps hs with
  | getConnection hpc | refused hpc =>
    exact h.of_goto rfl (fun c => by rw [hpc]; rfl) (fun c => Or.inl (by rw [hpc]; exact Nat.le_refl _))
  | release hpc hmem =>
    refine h.of_goto rfl (fun b => ?_) (fun b => Or.inl ?_) <;> rw [hpc] <;>
      have hcount := (List.perm_cons_erase hmem).count_eq b <;> rw [List.count_cons] at hcount
    · simp only [PoolPc.due, List.count_cons, List.count_nil]
      omega
    · simp only [PoolPc.due, PoolPc.pending, List.count_cons, List.count_nil]
      omega
  | run hm => exact h.moves hacc hparam hok hm
  | connected hpc =>
    have hfree := hacc.fresh_free
    have hzero := due_pending_le s s.made
    have hleases := h.leases s.made
    refine h.of_goto rfl (fun b => ?_) (fun b => ?_) <;> rw [hpc] <;> by_cases hb : b = s.made
    · subst hb
      rw [setObject_self]
      simp only [setObject, PoolPc.due, HttpConnection.new, List.count_nil]
      omega
    · rw [setObject_of_ne _ hb]
      rfl
    · subst hb
      rw [setObject_self]
      refine Or.inr ⟨?_, ?_⟩
      · simp only [HttpConnection.new]
        omega
      · simp [setObject, PoolPc.due, PoolPc.pending]
    · rw [setObject_of_ne _ hb]
      left
      simp [setObject, PoolPc.due, PoolPc.pending, Ne.symm hb]
  | close =>
    rename_i c
    refine ⟨fun b => ?_, fun b => ?_⟩
    · rw [(s.close_object b c).1, (s.close_object b c).2]
      exact h.leases b
    · rw [(s.close_object b c).2]
      exact h.bound b
  | tick => exact ⟨h.leases, h.bound⟩

theorem reach_limited (hmax : 1 ≤ maxRequest.toNat)
    (h : Reach step Unspent (init n maxSize maxAliveTime maxRequest clock) s) : s.Limited maxRequest := by
  induction h with
  | start => exact .init ..
  | next hreach hok hs ih => exact ih.step (reach_accounted hreach) (reach_params hreach).maxRequest hmax hok hs

/-- A connection that a call has found in the list is returned by the next steps of that call. -/
theorem reach_hand {ok : HttpConnectionPool n → PoolAct n → Prop} (hok : ∀ s a, ok s a) {size : Nat} :
    ∀ {invalid : List Nat} {s : HttpConnectionPool n}, s.threads i = .delete invalid size (some c) →
      ∃ t, Reach step ok s t ∧ (t.object c).leases = (s.object c).leases + 1
  | [], s, hpc => by
    let u := { s with total := int32 (s.total - size) }.goto i (.hand c)
    have hu : s.step (.run i) = some u := by
      simp only [HttpConnectionPool.step, hpc]
      rfl
    have hupc : u.threads i = .hand c := Function.update_self ..
    refine ⟨_, .next (.next .start (hok _ _) hu) (hok _ (.run i)) (by simp only [HttpConnectionPool.step, hupc]; rfl), ?_⟩
    exact congrArg HttpConnection.leases (setObject_self (s := { u with leased := u.leased ++ [c] }) _)
  | b :: invalid, s, hpc => by
    let u := { s with deleted := s.deleted ++ [b] }.goto i (.delete invalid size (some c))
    have hu : s.step (.run i) = some u := by
      simp only [HttpConnectionPool.step, hpc]
      rfl
    obtain ⟨t, ht, hleases⟩ := reach_hand hok (show u.threads i = .delete invalid size (some c) from
      Function.update_self ..)
    exact ⟨t, (Reach.next .start (hok _ _) hu).trans ht, hleases⟩

end HttpConnectionPool
end Http
end MyHttp
