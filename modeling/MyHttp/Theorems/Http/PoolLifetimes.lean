import MyHttp.Theorems.Http.PoolLimits
import Mathlib.Data.List.TakeWhile

/-! How long a pool keeps a connection. The time of creation is never stored, so that every connection is taken to be as
    old as the clock: the list returns connections of any age, and a clock that is not past `m_maxAliveTime` makes the
    pool throw away what is new. -/

namespace MyHttp
namespace Http

open Lib Lib.Machine Lib.Run

namespace HttpConnectionPool

variable {n : Nat} {s t u : HttpConnectionPool n} {i : Fin n} {a : PoolAct n} {c now : Nat} {pc : PoolPc}
  {maxSize maxAliveTime maxRequest : UInt32} {clock : Nat}

/-- What the list has given was not too old, and what was thrown away was closed, too old or used too often. -/
structure Lifetimes (s : HttpConnectionPool n) : Prop where
  handed : ∀ x ∈ s.handed, x.2 ≤ x.1 + s.maxAliveTime.toNat
  destroyed : ∀ x ∈ s.destroyed, x.1.connected = true → x.2 < x.1.established + s.maxAliveTime.toNat →
    s.maxRequest.toNat < x.1.request

/-- The connections of the list that are not closed. -/
def live (s : HttpConnectionPool n) : List Nat := s.conns.filter fun c => (s.object c).connected

/-- A call with a clock past `m_maxAliveTime` finds a first open connection that is not too old; one with an earlier
    clock finds none; and a release with such a clock brings back a connection that is closed, too old or used too
    often. -/
def Timely (s : HttpConnectionPool n) : PoolAct n → Prop
  | .run i =>
    match s.threads i with
    | .lock now =>
      if s.maxAliveTime.toNat ≤ now then
        ∀ c ∈ s.live.head?, now ≤ (s.object c).established + s.maxAliveTime.toNat
      else s.live = []
    | .test c =>
      s.clock ≤ s.maxAliveTime.toNat → (s.object c).connected = true →
        s.clock < (s.object c).established + s.maxAliveTime.toNat → s.maxRequest.toNat < (s.object c).request
    | _ => True
  | _ => True

instance (s : HttpConnectionPool n) (a : PoolAct n) : Decidable (s.Timely a) := by
  induction a using PoolAct.casesOn with
  | run i =>
    dsimp only [Timely]
    induction s.threads i using PoolPc.casesOn <;> infer_instance
  | _ => unfold Timely; infer_instance

/-! ### What every run keeps -/

/-- Two calls do not have the same connection in hand. -/
theorem Accounted.apart (h : s.Accounted) {j : Fin n} (hij : i ≠ j) (hi : c ∈ (s.threads i).holds) :
    c ∉ (s.threads j).holds := by
  intro hj
  have hplaces := h.made c
  have htotal := Count.add_le_total (fun pc => pc.holds.count c) s.threads hij
  have hci := List.count_pos_iff.mpr hi
  have hcj := List.count_pos_iff.mpr hj
  unfold places leasedTo at hplaces
  split at hplaces <;> omega

/-- A connection that a call has in hand is not in the list. -/
theorem Accounted.not_idle (h : s.Accounted) (hi : c ∈ (s.threads i).holds) : c ∉ s.conns := by
  intro hc
  have hfree := h.idle_free hc
  have htotal := Count.le_total (fun pc => pc.holds.count c) s.threads i
  have hci := List.count_pos_iff.mpr hi
  unfold leasedTo at hfree
  omega

/-- No connection knows when it was made, and one that is kept has not been used too often. -/
structure Settled (s : HttpConnectionPool n) : Prop where
  createTime : ∀ c, (s.object c).createTime = 0
  conns : ∀ c ∈ s.conns, (s.object c).request ≤ s.maxRequest.toNat
  keep : ∀ i c, s.threads i = .keep c → (s.object c).request ≤ s.maxRequest.toNat

theorem Settled.of_goto (h : s.Settled) (hu : u.threads = s.threads) (hmax : u.maxRequest = s.maxRequest)
    (hobject : ∀ c, (u.object c).createTime = 0)
    (hconns : ∀ c ∈ u.conns, (u.object c).request ≤ s.maxRequest.toNat)
    (hpc : ∀ c, pc = .keep c → (u.object c).request ≤ s.maxRequest.toNat)
    (hothers : ∀ j c, j ≠ i → s.threads j = .keep c → (u.object c).request = (s.object c).request) :
    (u.goto i pc).Settled := by
  refine ⟨hobject, fun c hc => ?_, fun j c hj => ?_⟩
  · show _ ≤ u.maxRequest.toNat
    rw [hmax]
    exact hconns c hc
  · show _ ≤ u.maxRequest.toNat
    rw [hmax]
    by_cases hji : j = i
    · subst hji
      exact hpc c ((Function.update_self ..).symm.trans hj)
    · have hold : s.threads j = .keep c := by
        rw [← hu]
        exact (Function.update_of_ne hji ..).symm.trans hj
      show (u.object c).request ≤ _
      rw [hothers j c hji hold]
      exact h.keep j c hold

theorem Settled.init : (init n maxSize maxAliveTime maxRequest clock).Settled where
  createTime _ := rfl
  conns _ hc := nomatch hc
  keep _ _ hi := nomatch hi

/-- Writing a connection does not change when it was made. -/
theorem Settled.setObject (h : s.Settled) {o : HttpConnection} (ho : o.createTime = 0) (b : Nat) :
    ((s.setObject c o).object b).createTime = 0 := by
  by_cases hb : b = c
  · subst hb
    rwa [setObject_self]
  · rw [setObject_of_ne _ hb]
    exact h.createTime b

/-- A step that writes no connection and adds none to the list. -/
theorem Settled.of_move (h : s.Settled) (hu : u.threads = s.threads) (hmax : u.maxRequest = s.maxRequest)
    (hobject : u.object = s.object) (hconns : ∀ c ∈ u.conns, c ∈ s.conns) (hpc : ∀ c, pc ≠ .keep c) :
    (u.goto i pc).Settled := by
  refine h.of_goto hu hmax (fun c => ?_) (fun c hc => ?_) (fun c hc => (hpc c hc).elim) fun j c _ _ => ?_ <;> rw [hobject]
  · exact h.createTime c
  · exact h.conns c (hconns c hc)

/-- A step that writes a connection which is nowhere else. -/
theorem Settled.of_write (h : s.Settled) {o : HttpConnection} (hconns : c ∉ s.conns)
    (hothers : ∀ j, j ≠ i → c ∉ (s.threads j).holds) (ho : o.createTime = 0) (hu : u.threads = s.threads)
    (hmax : u.maxRequest = s.maxRequest) (hobject : u.object = (s.setObject c o).object) (hlist : u.conns = s.conns)
    (hpc : ∀ c, pc ≠ .keep c) : (u.goto i pc).Settled := by
  refine h.of_goto hu hmax (fun b => ?_) (fun b hb => ?_) (fun b hb => (hpc b hb).elim) fun j b hji hj => ?_
  · rw [hobject]
    exact h.setObject ho b
  · rw [hlist] at hb
    have hne : b ≠ c := fun e => hconns (e ▸ hb)
    rw [hobject, setObject_of_ne _ hne]
    exact h.conns b hb
  · have hne : b ≠ c := by
      rintro rfl
      refine hothers j hji ?_
      rw [hj]
      exact List.mem_singleton_self b
    rw [hobject, setObject_of_ne _ hne]

theorem Settled.moves (h : s.Settled) (hacc : s.Accounted) (hm : Moves s i t) : t.Settled := by
  cases hm with
  | pop hpc =>
    rename_i now
    refine h.of_move rfl rfl rfl (fun c hc => ?_) fun _ => PoolPc.noConfusion
    rw [s.conns_split now, List.mem_append, List.mem_append]
    exact Or.inr (Or.inr hc)
  | subtractInvalid hpc =>
    rename_i size found
    exact h.of_move rfl rfl rfl (fun _ hc => hc) fun c => by cases found <;> exact PoolPc.noConfusion
  | hand hpc | request hpc =>
    rename_i c
    have hheld : c ∈ (s.threads i).holds := by
      rw [hpc]
      exact List.mem_singleton_self c
    refine h.of_write (hacc.not_idle hheld) (fun j hji => hacc.apart (Ne.symm hji) hheld) ?_ rfl rfl rfl rfl
      fun _ => PoolPc.noConfusion
    exact h.createTime c
  | kept hpc hd =>
    rename_i c
    refine h.of_goto rfl rfl h.createTime h.conns (fun b hb => ?_) fun _ _ _ _ => rfl
    cases hb
    unfold HttpConnectionPool.dropped HttpConnection.dropped at hd
    simp only [Bool.or_eq_false_iff, decide_eq_false_iff_not, Nat.not_lt] at hd
    exact hd.2
  | keep hpc =>
    rename_i c
    refine h.of_goto rfl rfl h.createTime (fun b hb => ?_) (fun _ => PoolPc.noConfusion) fun _ _ _ _ => rfl
    rcases List.mem_append.mp hb with hb | hb
    · exact h.conns b hb
    · rw [List.mem_singleton.mp hb]
      exact h.keep i c hpc
  | delete hpc | add hpc | dropped hpc | discard hpc | subtract hpc =>
    exact h.of_move rfl rfl rfl (fun _ hc => hc) fun _ => PoolPc.noConfusion

theorem Settled.step (h : s.Settled) (hacc : s.Accounted) (hs : s.step a = some t) : t.Settled := by
  cases step_steps hs with
  | getConnection | release | refused => exact h.of_move rfl rfl rfl (fun _ hc => hc) fun _ => PoolPc.noConfusion
  | run hm => exact h.moves hacc hm
  | connected =>
    have hplaces := hacc.made s.made
    rw [if_neg (Nat.lt_irrefl _)] at hplaces
    unfold places leasedTo at hplaces
    refine h.of_write (fun hc => ?_) (fun j _ hj => ?_) rfl rfl rfl rfl rfl fun _ => PoolPc.noConfusion
    · have hpos : 0 < s.idle s.made := List.count_pos_iff.mpr hc
      omega
    · have hpos := List.count_pos_iff.mpr hj
      have hle := Count.le_total (fun pc => pc.holds.count s.made) s.threads j
      omega
  | close =>
    rename_i c
    refine ⟨h.setObject (h.createTime c), fun b hb => ?_, fun j b hj => ?_⟩ <;> rw [(s.close_object b c).2]
    · exact h.conns b hb
    · exact h.keep j b hj
  | tick => exact ⟨h.createTime, h.conns, h.keep⟩

theorem reach_settled {ok : HttpConnectionPool n → PoolAct n → Prop}
    (h : Reach step ok (init n maxSize maxAliveTime maxRequest clock) s) : s.Settled := by
  induction h with
  | start => exact .init
  | next hreach _ hs ih => exact ih.step (reach_accounted hreach) hs

/-! ### What a step gives and throws away -/

theorem wrap64_alive (maxAliveTime : UInt32) : wrap64 (0 + maxAliveTime.toNat) = maxAliveTime.toNat := by
  have hlt := maxAliveTime.toNat_lt
  rw [Nat.zero_add]
  exact Nat.mod_eq_of_lt (by omega)

/-- The age of a connection is the clock. -/
theorem Settled.invalid (h : s.Settled) (now c : Nat) :
    s.invalid now c = (!(s.object c).connected || decide (now < s.maxAliveTime.toNat)) := by
  unfold HttpConnectionPool.invalid HttpConnection.invalid
  rw [h.createTime, wrap64_alive]

theorem Settled.dropped (h : s.Settled) (c : Nat) : s.dropped c = (!(s.object c).connected ||
    decide (s.clock ≤ s.maxAliveTime.toNat) || decide (s.maxRequest.toNat < (s.object c).request)) := by
  unfold HttpConnectionPool.dropped HttpConnection.dropped
  rw [h.createTime, wrap64_alive]

/-- With a clock past `m_maxAliveTime` the list gives its first open connection, and throws away closed ones. -/
theorem Settled.pop_late (h : s.Settled) (hnow : s.maxAliveTime.toNat ≤ now) :
    s.found now = s.live.head? ∧ ∀ c ∈ s.invalidConns now, (s.object c).connected = false := by
  have hinvalid : s.invalid now = fun c => !(s.object c).connected := funext fun c => by
    rw [h.invalid, decide_eq_false (Nat.not_lt.mpr hnow), Bool.or_false]
  unfold found invalidConns live
  rw [hinvalid]
  refine ⟨?_, fun c hc => ?_⟩
  · rw [List.head?_filter, List.find?_eq_head?_dropWhile_not]
  · simpa using List.mem_takeWhile_imp hc

/-- With an earlier clock it throws everything away. -/
theorem Settled.pop_early (h : s.Settled) (hnow : now < s.maxAliveTime.toNat) :
    s.found now = none ∧ s.invalidConns now = s.conns := by
  have hinvalid : ∀ c ∈ s.conns, s.invalid now c = true := fun c _ => by
    rw [h.invalid, decide_eq_true hnow, Bool.or_true]
  unfold found invalidConns
  rw [List.dropWhile_eq_nil_iff.mpr hinvalid]
  exact ⟨rfl, List.takeWhile_eq_self_iff.mpr hinvalid⟩

/-- What a step adds to what was given and thrown away. -/
theorem Lifetimes.append_iff (h : s.Lifetimes) {handed : List (Nat × Nat)} {destroyed : List (HttpConnection × Nat)}
    (halive : t.maxAliveTime = s.maxAliveTime) (hmax : t.maxRequest = s.maxRequest)
    (hhanded : t.handed = s.handed ++ handed) (hdestroyed : t.destroyed = s.destroyed ++ destroyed) :
    t.Lifetimes ↔ (∀ x ∈ handed, x.2 ≤ x.1 + s.maxAliveTime.toNat) ∧
      ∀ x ∈ destroyed, x.1.connected = true → x.2 < x.1.established + s.maxAliveTime.toNat →
        s.maxRequest.toNat < x.1.request := by
  constructor
  · intro ht
    refine ⟨fun x hx => ?_, fun x hx => ?_⟩
    · have hgood := ht.handed x (by rw [hhanded]; exact List.mem_append_right _ hx)
      rwa [halive] at hgood
    · have hgood := ht.destroyed x (by rw [hdestroyed]; exact List.mem_append_right _ hx)
      rwa [halive, hmax] at hgood
  · rintro ⟨hnew, hgone⟩
    refine ⟨fun x hx => ?_, fun x hx => ?_⟩
    · rw [hhanded] at hx
      rw [halive]
      exact (List.mem_append.mp hx).elim (h.handed x) (hnew x)
    · rw [hdestroyed] at hx
      rw [halive, hmax]
      exact (List.mem_append.mp hx).elim (h.destroyed x) (hgone x)

/-- The loop of `getConnection`. -/
theorem Lifetimes.pop_iff (h : s.Lifetimes) (hset : s.Settled) (hpc : s.threads i = .lock now) :
    ((s.pop now).goto i pc).Lifetimes ↔ s.Timely (.run i) := by
  refine (h.append_iff (t := (s.pop now).goto i pc) rfl rfl rfl rfl).trans ?_
  simp only [Timely, hpc]
  by_cases hnow : s.maxAliveTime.toNat ≤ now
  · obtain ⟨hfound, hclosed⟩ := hset.pop_late hnow
    rw [if_pos hnow, ← hfound]
    constructor
    · rintro ⟨hnew, -⟩ c hc
      exact hnew _ (List.mem_map_of_mem (Option.mem_toList.mpr hc))
    · intro hnew
      refine ⟨fun x hx => ?_, fun x hx hconnected => ?_⟩
      · obtain ⟨c, hc, rfl⟩ := List.mem_map.mp hx
        exact hnew c (Option.mem_toList.mp hc)
      · obtain ⟨c, hc, rfl⟩ := List.mem_map.mp hx
        rw [hclosed c hc] at hconnected
        cases hconnected
  · have hearly := Nat.lt_of_not_le hnow
    obtain ⟨hfound, hinvalid⟩ := hset.pop_early hearly
    rw [if_neg hnow, hfound, hinvalid]
    constructor
    · rintro ⟨-, hgone⟩
      refine List.filter_eq_nil_iff.mpr fun c hc hconnected => ?_
      have hused := hgone _ (List.mem_map_of_mem hc) hconnected (by dsimp only; omega)
      exact absurd hused (Nat.not_lt.mpr (hset.conns c hc))
    · intro hlive
      refine ⟨fun x hx => (nomatch hx), fun x hx hconnected => ?_⟩
      obtain ⟨c, hc, rfl⟩ := List.mem_map.mp hx
      exact (List.filter_eq_nil_iff.mp hlive c hc hconnected).elim

theorem Lifetimes.same (h : s.Lifetimes) (halive : t.maxAliveTime = s.maxAliveTime) (hmax : t.maxRequest = s.maxRequest)
    (hhanded : t.handed = s.handed) (hdestroyed : t.destroyed = s.destroyed) : t.Lifetimes :=
  (h.append_iff halive hmax (hhanded.trans (List.append_nil _).symm) (hdestroyed.trans (List.append_nil _).symm)).mpr
    ⟨fun _ hx => (nomatch hx), fun _ hx => (nomatch hx)⟩

/-- The tests of `ReleasePtr`. -/
theorem Lifetimes.test_iff (h : s.Lifetimes) (hset : s.Settled) (hpc : s.threads i = .test c) (hm : Moves s i t) :
    t.Lifetimes ↔ s.Timely (.run i) := by
  simp only [Timely, hpc]
  cases hm with
  | dropped hpc' hd =>
    rename_i b
    obtain rfl : c = b := PoolPc.test.inj (hpc.symm.trans hpc')
    rw [hset.dropped, Bool.or_eq_true, Bool.or_eq_true, decide_eq_true_eq, decide_eq_true_eq, Bool.not_eq_true'] at hd
    let u := { s with destroyed := s.destroyed ++ [(s.object c, s.clock)] }.goto i (.discard c)
    refine (h.append_iff (t := u) rfl rfl (List.append_nil _).symm rfl).trans ?_
    constructor
    · rintro ⟨-, hgone⟩ _ hconnected hyoung
      exact hgone _ (List.mem_singleton_self _) hconnected hyoung
    · intro hgone
      refine ⟨fun _ hx => (nomatch hx), fun x hx hconnected hyoung => ?_⟩
      obtain rfl := List.mem_singleton.mp hx
      rcases hd with (hclosed | hearly) | hused
      · rw [hclosed] at hconnected
        cases hconnected
      · exact hgone hearly hconnected hyoung
      · exact hused
  | kept hpc' hd =>
    rename_i b
    obtain rfl : c = b := PoolPc.test.inj (hpc.symm.trans hpc')
    rw [hset.dropped, Bool.or_eq_false_iff, Bool.or_eq_false_iff, decide_eq_false_iff_not] at hd
    exact iff_of_true (h.same rfl rfl rfl rfl) fun hearly => (hd.1.2 hearly).elim
  | pop hpc' | delete hpc' | subtractInvalid hpc' | add hpc' | hand hpc' | request hpc' | discard hpc' | subtract hpc'
  | keep hpc' =>
    rw [hpc] at hpc'
    cases hpc'

theorem lifetimes_iff (h : s.Lifetimes) (hset : s.Settled) (hs : s.step a = some t) : t.Lifetimes ↔ s.Timely a := by
  cases step_steps hs with
  | run hm =>
    cases hm with
    | pop hpc => exact h.pop_iff hset hpc
    | dropped hpc | kept hpc => exact h.test_iff hset hpc (run_moves hs)
    | delete hpc | subtractInvalid hpc | add hpc | hand hpc | request hpc | discard hpc | subtract hpc | keep hpc =>
      exact iff_of_true (h.same rfl rfl rfl rfl) (by simp only [Timely, hpc])
  | _ => exact iff_of_true (h.same rfl rfl rfl rfl) trivial

end HttpConnectionPool
end Http
end MyHttp
