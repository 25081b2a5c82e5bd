import MyHttp.Http.ConnectionPool
import MyHttp.Lib.Count
import MyHttp.Lib.Run

/-! Where the connections of a pool are. A connection is in one place from the moment it is made, and every step moves
    it from one place to another; `m_total` is behind by what the calls in progress have still to add or to subtract. -/

namespace MyHttp
namespace Http

open Lib Lib.Machine Lib.Run

/-- The connections that a call has in hand for a user. -/
def PoolPc.holds : PoolPc → List Nat
  | .delete _ _ found => found.toList
  | .add c | .hand c | .request c | .test c | .keep c => [c]
  | _ => []

/-- The connections that a call has still to delete. -/
def PoolPc.discards : PoolPc → List Nat
  | .delete invalid _ _ => invalid
  | .discard c => [c]
  | _ => []

/-- What a call has counted in `m_total`, or has still to take out of it. -/
def PoolPc.counted : PoolPc → Nat
  | .delete _ size found => size + found.toList.length
  | .hand _ | .request _ | .test _ | .discard _ | .subtract | .keep _ => 1
  | _ => 0

namespace HttpConnectionPool

variable {n : Nat} {s t : HttpConnectionPool n} {i : Fin n} {a : PoolAct n} {c now : Nat}

/-! ### The steps -/

/-- What the next step of a thread inside a call does. -/
inductive Moves (s : HttpConnectionPool n) (i : Fin n) : HttpConnectionPool n → Prop
  | pop {now : Nat} : s.threads i = .lock now →
    Moves s i ((s.pop now).goto i (.delete (s.invalidConns now) (s.invalidConns now).length (s.found now)))
  | delete {c : Nat} {invalid : List Nat} {size : Nat} {found : Option Nat} :
    s.threads i = .delete (c :: invalid) size found →
    Moves s i ({ s with deleted := s.deleted ++ [c] }.goto i (.delete invalid size found))
  | subtractInvalid {size : Nat} {found : Option Nat} : s.threads i = .delete [] size found →
    Moves s i ({ s with total := int32 (s.total - size) }.goto i (afterDelete found))
  | add {c : Nat} : s.threads i = .add c → Moves s i ({ s with total := int32 (s.total + 1) }.goto i (.hand c))
  | hand {c : Nat} : s.threads i = .hand c →
    Moves s i (({ s with leased := s.leased ++ [c] }.setObject c
      { s.object c with leases := (s.object c).leases + 1 }).goto i .out)
  | request {c : Nat} : s.threads i = .request c →
    Moves s i ((s.setObject c { s.object c with request := (s.object c).request + 1 }).goto i (.test c))
  | dropped {c : Nat} : s.threads i = .test c → s.dropped c = true →
    Moves s i ({ s with destroyed := s.destroyed ++ [(s.object c, s.clock)] }.goto i (.discard c))
  | kept {c : Nat} : s.threads i = .test c → s.dropped c = false → Moves s i (s.goto i (.keep c))
  | discard {c : Nat} : s.threads i = .discard c →
    Moves s i ({ s with deleted := s.deleted ++ [c] }.goto i .subtract)
  | subtract : s.threads i = .subtract → Moves s i ({ s with total := int32 (s.total - 1) }.goto i .out)
  | keep {c : Nat} : s.threads i = .keep c → Moves s i ({ s with conns := s.conns ++ [c] }.goto i .out)

theorem run_moves (h : s.run i (s.threads i) = some t) : Moves s i t := by
  rcases hpc : s.threads i with _ | now | ⟨_ | ⟨c, invalid⟩, size, found⟩ | _ | c | c | c | c | c | _ | c <;> rw [hpc] at h
  case out => cases h
  case connect => cases h
  case test =>
    simp only [run] at h
    split at h
    case isTrue hd =>
      cases h
      exact .dropped hpc hd
    case isFalse hd =>
      cases h
      exact .kept hpc (by simpa using hd)
  all_goals cases h
  · exact .pop hpc
  · exact .subtractInvalid hpc
  · exact .delete hpc
  · exact .add hpc
  · exact .hand hpc
  · exact .request hpc
  · exact .discard hpc
  · exact .subtract hpc
  · exact .keep hpc

/-- What a step does. -/
inductive Steps (s : HttpConnectionPool n) : PoolAct n → HttpConnectionPool n → Prop
  | getConnection {i : Fin n} : s.threads i = .out → Steps s (.getConnection i) (s.goto i (.lock s.clock))
  | release {i : Fin n} {c : Nat} : s.threads i = .out → c ∈ s.leased →
    Steps s (.release i c) ({ s with leased := s.leased.erase c }.goto i (.request c))
  | run {i : Fin n} {t : HttpConnectionPool n} : Moves s i t → Steps s (.run i) t
  | connected {i : Fin n} : s.threads i = .connect →
    Steps s (.connect i true) (({ s with made := s.made + 1 }.setObject s.made (.new s.clock)).goto i (.add s.made))
  | refused {i : Fin n} : s.threads i = .connect → Steps s (.connect i false) (s.goto i .out)
  | close {c : Nat} : Steps s (.close c) (s.setObject c { s.object c with connected := false })
  | tick {ms : Nat} : Steps s (.tick ms) { s with clock := s.clock + ms }

theorem step_steps (h : s.step a = some t) : Steps s a t := by
  cases a with
  | getConnection i =>
    simp only [step] at h
    split at h <;> cases h
    rename_i hpc
    exact .getConnection hpc
  | release i c =>
    simp only [step] at h
    split at h <;> cases h
    rename_i hpc
    exact .release hpc.1 hpc.2
  | run i => exact .run (run_moves h)
  | connect i ok =>
    simp only [step] at h
    split at h
    case isFalse => cases h
    case isTrue hpc =>
      cases ok <;> cases h
      · exact .refused hpc
      · exact .connected hpc
  | close c =>
    cases h
    exact .close
  | tick ms =>
    cases h
    exact .tick

/-- What the loop of `getConnection` takes out of the list stood at its front. -/
theorem conns_split (s : HttpConnectionPool n) (now : Nat) :
    s.conns = s.invalidConns now ++ ((s.found now).toList ++ (s.pop now).conns) := by
  have hrest : s.conns.dropWhile (s.invalid now) = (s.found now).toList ++ (s.pop now).conns := by
    unfold found pop
    cases s.conns.dropWhile (s.invalid now) <;> rfl
  unfold invalidConns
  rw [← hrest, List.takeWhile_append_dropWhile]

/-! ### Places -/

/-- In the list. -/
def idle (s : HttpConnectionPool n) (c : Nat) : Nat := s.conns.count c

/-- With a user, or on the way to one or from one. -/
def leasedTo (s : HttpConnectionPool n) (c : Nat) : Nat :=
  s.leased.count c + Count.total (fun pc => pc.holds.count c) s.threads

/-- About to be deleted by a thread. -/
def discarding (s : HttpConnectionPool n) (c : Nat) : Nat := Count.total (fun pc => pc.discards.count c) s.threads

def deletions (s : HttpConnectionPool n) (c : Nat) : Nat := s.deleted.count c

/-- How often a connection is anywhere. -/
def places (s : HttpConnectionPool n) (c : Nat) : Nat := s.idle c + s.leasedTo c + s.discarding c + s.deletions c

/-- The number that `m_total` stands for. -/
def connections (s : HttpConnectionPool n) : Nat :=
  s.conns.length + s.leased.length + Count.total PoolPc.counted s.threads

structure Accounted (s : HttpConnectionPool n) : Prop where
  made : ∀ c, s.places c = if c < s.made then 1 else 0
  total : s.total = int32 s.connections

theorem Accounted.init (maxSize maxAliveTime maxRequest : UInt32) (clock : Nat) :
    (init n maxSize maxAliveTime maxRequest clock).Accounted := by
  have hzero : ∀ g : PoolPc → Nat, g .out = 0 →
      Count.total g (HttpConnectionPool.init n maxSize maxAliveTime maxRequest clock).threads = 0 := fun g h =>
    Count.total_zero fun _ => h
  constructor
  · intro c
    unfold places leasedTo discarding
    rw [hzero _ rfl, hzero _ rfl]
    rfl
  · unfold connections
    rw [hzero _ rfl]
    show (0 : Int) = int32 0
    exact (int32_eq (Int.le_refl 0) (by decide)).symm

theorem total_goto (g : PoolPc → Nat) (pc : PoolPc) :
    Count.total g (s.goto i pc).threads + g (s.threads i) = Count.total g s.threads + g pc :=
  Count.total_update g s.threads i pc

/-- A step of a thread keeps the accounts when what it moves into the thread it moves out of somewhere else; the
    connections `fresh` are new. -/
theorem Accounted.of_goto (fresh : Nat → Nat) (h : s.Accounted) {u : HttpConnectionPool n} {pc : PoolPc} {d : Int}
    (hu : u.threads = s.threads)
    (hmade : ∀ c, (if c < u.made then 1 else 0) = (if c < s.made then 1 else 0) + fresh c)
    (hplaces : ∀ c, u.conns.count c + u.leased.count c + u.deleted.count c + pc.holds.count c + pc.discards.count c =
      s.conns.count c + s.leased.count c + s.deleted.count c + (s.threads i).holds.count c +
        (s.threads i).discards.count c + fresh c)
    (htotal : u.total = int32 (s.total + d))
    (hcounted : (u.conns.length + u.leased.length + pc.counted : Int) =
      s.conns.length + s.leased.length + (s.threads i).counted + d) : (u.goto i pc).Accounted := by
  constructor
  · intro c
    have hold := h.made c
    have hholds := total_goto (s := u) (i := i) (fun pc => pc.holds.count c) pc
    have hdiscards := total_goto (s := u) (i := i) (fun pc => pc.discards.count c) pc
    have hc := hplaces c
    rw [hu] at hholds hdiscards
    unfold places idle leasedTo discarding deletions at *
    show u.conns.count c + (u.leased.count c + _) + _ + u.deleted.count c = if c < u.made then 1 else 0
    rw [hmade]
    omega
  · have hthreads := total_goto (s := u) (i := i) PoolPc.counted pc
    rw [hu] at hthreads
    have hconnections : ((u.goto i pc).connections : Int) = s.connections + d := by
      have hconns : (u.goto i pc).conns = u.conns := rfl
      have hleased : (u.goto i pc).leased = u.leased := rfl
      unfold connections
      rw [hconns, hleased]
      omega
    show u.total = _
    rw [htotal, hconnections, h.total]
    exact Int.bmod_add_bmod

/-- A step that makes no connection and leaves `m_total`. -/
theorem Accounted.of_move (h : s.Accounted) {u : HttpConnectionPool n} {pc : PoolPc} (hu : u.threads = s.threads)
    (hmade : u.made = s.made)
    (hplaces : ∀ c, u.conns.count c + u.leased.count c + u.deleted.count c + pc.holds.count c + pc.discards.count c =
      s.conns.count c + s.leased.count c + s.deleted.count c + (s.threads i).holds.count c +
        (s.threads i).discards.count c)
    (htotal : u.total = s.total)
    (hcounted : u.conns.length + u.leased.length + pc.counted =
      s.conns.length + s.leased.length + (s.threads i).counted) : (u.goto i pc).Accounted := by
  refine h.of_goto (fun _ => 0) (d := 0) hu (fun c => by rw [hmade]; rfl) hplaces ?_ (by omega)
  rw [htotal, Int.add_zero, h.total]
  exact Int.bmod_bmod.symm

/-- One more address is given out. -/
theorem made_succ (made c : Nat) :
    (if c < made + 1 then 1 else 0) = (if c < made then 1 else 0) + [made].count c := by
  rw [List.count_singleton]
  by_cases hc : made = c
  · simp [hc]
  · have hlt : c < made + 1 ↔ c < made := by omega
    simp [hc, hlt]

theorem afterDelete_holds (found : Option Nat) : (afterDelete found).holds = found.toList := by cases found <;> rfl

theorem afterDelete_discards (found : Option Nat) : (afterDelete found).discards = [] := by cases found <;> rfl

theorem afterDelete_counted (found : Option Nat) : (afterDelete found).counted = found.toList.length := by
  cases found <;> rfl

/-- The step of a thread. -/
theorem Accounted.moves (h : s.Accounted) (hm : Moves s i t) : t.Accounted := by
  cases hm with
  | pop hpc =>
    rename_i now
    have hsplit := s.conns_split now
    refine h.of_move rfl rfl (fun c => ?_) rfl ?_ <;> rw [hpc]
    · have hcount := congrArg (List.count c) hsplit
      rw [List.count_append, List.count_append] at hcount
      have hleased : (s.pop now).leased = s.leased := rfl
      have hdeleted : (s.pop now).deleted = s.deleted := rfl
      rw [hleased, hdeleted]
      simp only [PoolPc.holds, PoolPc.discards, List.count_nil]
      omega
    · have hlength := congrArg List.length hsplit
      rw [List.length_append, List.length_append] at hlength
      have hleased : (s.pop now).leased = s.leased := rfl
      rw [hleased]
      simp only [PoolPc.counted]
      omega
  | subtractInvalid hpc =>
    rename_i size found
    refine h.of_goto (fun _ => 0) (d := -size) rfl (fun _ => rfl) (fun c => ?_) rfl ?_ <;> rw [hpc]
    · rw [afterDelete_holds, afterDelete_discards]
      rfl
    · rw [afterDelete_counted]
      simp only [PoolPc.counted]
      omega
  | add hpc =>
    exact h.of_goto (fun _ => 0) (d := 1) rfl (fun _ => rfl) (fun c => by rw [hpc]; rfl) rfl (by rw [hpc]; rfl)
  | subtract hpc =>
    exact h.of_goto (fun _ => 0) (d := -1) rfl (fun _ => rfl) (fun c => by rw [hpc]; rfl) rfl
      (by rw [hpc]; simp [PoolPc.counted])
  | request hpc | kept hpc => exact h.of_move rfl rfl (fun c => by rw [hpc]; rfl) rfl (by rw [hpc]; rfl)
  | dropped hpc => exact h.of_move rfl rfl (fun c => by rw [hpc]; exact Nat.add_right_comm _ _ _) rfl (by rw [hpc]; rfl)
  | delete hpc | discard hpc =>
    refine h.of_move rfl rfl (fun c => ?_) rfl (by rw [hpc]; rfl)
    rw [hpc]
    simp only [PoolPc.holds, PoolPc.discards, List.count_append, List.count_cons, List.count_nil]
    omega
  | hand hpc | keep hpc =>
    refine h.of_move rfl rfl (fun c => ?_) rfl ?_ <;> rw [hpc]
    · simp only [PoolPc.holds, PoolPc.discards, setObject, List.count_append, List.count_cons, List.count_nil]
      omega
    · simp only [PoolPc.counted, setObject, List.length_append, List.length_cons, List.length_nil]
      omega

theorem Accounted.step (h : s.Accounted) (hs : s.step a = some t) : t.Accounted := by
  cases step_steps hs with
  | getConnection hpc => exact h.of_move rfl rfl (fun c => by rw [hpc]; rfl) rfl (by rw [hpc]; rfl)
  | release hpc hmem =>
    have hpos := List.length_pos_of_mem hmem
    refine h.of_move rfl rfl (fun b => ?_) rfl ?_ <;> rw [hpc]
    · have hcount := (List.perm_cons_erase hmem).count_eq b
      rw [List.count_cons] at hcount
      simp only [PoolPc.holds, PoolPc.discards, List.count_cons, List.count_nil]
      omega
    · simp only [PoolPc.counted, List.length_erase_of_mem hmem]
      omega
  | run hm => exact h.moves hm
  | connected hpc =>
    refine h.of_goto (fun c => [s.made].count c) (d := 0) rfl (fun c => ?_) (fun c => ?_) ?_ ?_
    · exact made_succ s.made c
    · rw [hpc]
      rfl
    · show s.total = int32 (s.total + 0)
      rw [Int.add_zero, h.total]
      exact Int.bmod_bmod.symm
    · rw [hpc]
      rfl
  | refused hpc => exact h.of_move rfl rfl (fun c => by rw [hpc]; rfl) rfl (by rw [hpc]; rfl)
  | close | tick => exact ⟨h.made, h.total⟩

/-! ### Runs -/

theorem reach_accounted {ok : HttpConnectionPool n → PoolAct n → Prop} {maxSize maxAliveTime maxRequest : UInt32}
    {clock : Nat} (h : Reach step ok (init n maxSize maxAliveTime maxRequest clock) s) : s.Accounted :=
  h.invariant (P := Accounted) (.init ..) fun _ _ _ hs _ hstep => hs.step hstep

/-- A connection that was made is in one place, once; and when no call is in progress `m_total` is the number of the
    connections that are idle or leased, as an `int32_t`. -/
theorem connections_accounted {maxSize maxAliveTime maxRequest : UInt32} {clock : Nat}
    (h : Reach step (fun _ (_ : PoolAct n) => True) (init n maxSize maxAliveTime maxRequest clock) s) :
    (∀ c, s.idle c + s.leasedTo c + s.discarding c + s.deletions c = if c < s.made then 1 else 0) ∧
    ((∀ i, s.threads i = .out) → s.total = int32 (s.conns.length + s.leased.length : Nat) ∧
      (s.conns.length + s.leased.length < 2 ^ 31 → s.total = (s.conns.length + s.leased.length : Nat))) := by
  have hacc := reach_accounted h
  refine ⟨hacc.made, fun hout => ?_⟩
  have hzero : Count.total PoolPc.counted s.threads = 0 := Count.total_zero fun i => by rw [hout i]; rfl
  have htotal : s.total = int32 (s.conns.length + s.leased.length : Nat) := by
    rw [hacc.total, connections, hzero, Nat.add_zero]
  refine ⟨htotal, fun hlt => ?_⟩
  rw [htotal]
  exact int32_eq (by omega) (by omega)

/-- Two threads make a connection each; one comes back and is kept, then it is closed and thrown away by a call that
    cannot connect. -/
theorem connections_accounted_two :
    let s := (exec step (fun _ _ => True) (init 2 1 10 1 1000) [.getConnection 0, .getConnection 1, .run 0, .run 1,
      .run 0, .run 1, .connect 0 true, .connect 1 true, .run 1, .run 0, .run 0, .run 1, .release 1 0, .run 1, .run 1,
      .run 1, .close 0, .getConnection 0, .run 0, .run 0, .run 0, .connect 0 false]).get (by decide +kernel)
    s.total = 1 ∧ s.conns = [] ∧ s.leased = [1] ∧ s.deletions 0 = 1 := by
  intro s
  have hreach : Reach step (fun _ (_ : PoolAct 2) => True) (init 2 1 10 1 1000) s :=
    reach_of_exec (Option.some_get _).symm
  obtain ⟨-, htotal⟩ := connections_accounted hreach
  have hconns : s.conns = [] := by decide +kernel
  have hleased : s.leased = [1] := by decide +kernel
  have hout : ∀ i, s.threads i = .out := by decide +kernel
  have hlength : s.conns.length + s.leased.length = 1 := by rw [hconns, hleased]; rfl
  obtain ⟨-, heq⟩ := htotal hout
  rw [hlength] at heq
  exact ⟨heq (by decide), hconns, hleased, by decide +kernel⟩

end HttpConnectionPool
end Http
end MyHttp
