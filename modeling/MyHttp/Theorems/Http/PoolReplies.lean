import MyHttp.Http.PoolClient
import MyHttp.Theorems.Http.PoolAccounting
import MyHttp.Theorems.Http.ResponseFraming

/-! Which response a call of `doRequest` brings back. A connection that is put back into the list is clean as long as the
    last exchange on it took its answer to the end; a connection given up on a timeout is put back all the same. -/

namespace MyHttp
namespace Http

open Lib Lib.CString Lib.Run HttpResponseParser

/-! ### A response that is taken to its end -/

namespace RecvResponse

variable {head payload body : Bytes} {s s' : RecvResponse} {a : RecvAct}

theorem input_nextChunk (h : s.nextChunk.pc = .returned true) :
    s.parser.parser.chunksDone = true ∧ s.nextChunk.input = s.input := by
  unfold nextChunk at h ⊢
  split
  · rename_i hdone
    exact ⟨hdone, rfl⟩
  · rename_i hdone
    rw [if_neg hdone] at h
    cases h

theorem OnTrack.spent_take (h : OnTrack head payload body s) (hpc : s.pc = .take) (hend : s.take.pc = .returned true) :
    s.take.input = [] := by
  obtain ⟨-, htrack⟩ := h
  simp only [Track, hpc] at htrack
  obtain ⟨c, cs, ⟨hended, hinput, -, -, -, hdone⟩, -, hmin, -, -⟩ := htrack
  obtain ⟨hsame, hlast⟩ : s.take.input = s.input ∧ s.parser.parser.chunksDone = true := by
    unfold RecvResponse.take at hend ⊢
    dsimp only at hend ⊢
    split_ifs at hend ⊢
    obtain ⟨hdone, hsame⟩ := input_nextChunk hend
    exact ⟨hsame, hdone⟩
  rw [hdone, decide_eq_true_eq] at hlast
  obtain ⟨-, rfl⟩ := (ended_cons.mp hended).resolve_right fun hmore => hmore.1 hlast
  have hlength := congrArg List.length hinput
  rw [hlast] at hlength
  simp [crlf] at hlength
  rw [hsame]
  exact List.eq_nil_of_length_eq_zero (by omega)

theorem OnTrack.spent_length (h : OnTrack head payload body s) (hpc : s.pc = .length) (hend : s.length.pc = .returned true) :
    s.length.input = [] := by
  obtain ⟨hsized, htrack⟩ := h
  have hfits := hsized.body
  have hmax := hsized.maxSize
  simp only [Track, hpc] at htrack
  obtain ⟨hbody, hoffset, hlength, -⟩ := htrack
  have hint : int64 s.parser.getContentLength = body.length := by
    rw [hlength, int64, if_pos (by omega)]
  have htotal := congrArg List.length hbody
  rw [List.length_append] at htotal
  obtain ⟨hsame, hall⟩ : s.length.input = s.input ∧ body.length ≤ s.data.length := by
    unfold RecvResponse.length at hend ⊢
    dsimp only at hend ⊢
    rw [hint, hoffset] at hend ⊢
    split_ifs at hend ⊢ <;> exact ⟨rfl, by omega⟩
  rw [hsame]
  exact List.eq_nil_of_length_eq_zero (by omega)

theorem OnTrack.spent_read (h : OnTrack head payload body s) {count : Nat}
    (hpc : s.pc = .headRead ∨ s.pc = .chunkRead ∨ s.pc = .leftRead ∨ s.pc = .fixRead)
    (hend : (s.read count).pc = .returned true) : (s.read count).input = [] := by
  obtain ⟨-, htrack⟩ := h
  rcases hpc with hpc | hpc | hpc | hpc <;> simp only [Track, hpc] at htrack <;>
    simp only [RecvResponse.read, hpc] at hend ⊢ <;> split_ifs at hend ⊢
  all_goals try cases hend
  · -- more chunks follow
    obtain ⟨-, -, -, -, -, -, -, -, hdone⟩ := htrack
    obtain ⟨hlast, -⟩ := input_nextChunk hend
    rw [hdone] at hlast
    cases hlast
  · obtain ⟨-, hleft, -⟩ := htrack
    exact List.drop_eq_nil_of_le (by omega)

/-- A response that is right has taken all that there was of the message. -/
theorem OnTrack.spent (h : OnTrack head payload body s) (hs : s.step a = some s') (hend : s'.pc = .returned true) :
    s'.input = [] := by
  cases a with
  | read count =>
    obtain ⟨-, rfl, hpc⟩ := step_read hs
    exact h.spent_read hpc hend
  | run =>
    rcases step_run hs with ⟨hpc, rfl⟩ | ⟨hpc, rfl⟩ | ⟨hpc, rfl⟩ | ⟨hpc, rfl⟩ | ⟨hpc, rfl⟩
    · simp only [RecvResponse.headParse] at hend
      split_ifs at hend <;> cases hend
    · simp only [RecvResponse.chunkParse] at hend
      split_ifs at hend <;> cases hend
    · cases hend
    · exact h.spent_take hpc hend
    · exact h.spent_length hpc hend

/-- Against a server that answers nothing any more. -/
theorem step_lost {buffSize maxSize : Nat} (hs : (init buffSize maxSize []).step a = some s') :
    s'.pc = .returned false ∧ s'.input = [] := by
  cases a with
  | read count =>
    obtain ⟨hr, rfl, -⟩ := step_read hs
    obtain rfl : count = 0 := by simpa [readable, init] using hr
    exact ⟨rfl, rfl⟩
  | run => cases hs

end RecvResponse

/-- The connections that a call takes to a user or into the list. -/
def PoolPc.coming : PoolPc → List Nat
  | .delete _ _ found => found.toList
  | .add c | .hand c | .keep c => [c]
  | _ => []

/-- The connections that `ReleasePtr` has not yet tested. -/
def PoolPc.untested : PoolPc → List Nat
  | .request c | .test c => [c]
  | _ => []

theorem PoolPc.coming_holds {pc : PoolPc} {c : Nat} (h : c ∈ pc.coming) : c ∈ pc.holds := by
  cases pc <;> first | exact h | cases h

theorem PoolPc.untested_holds {pc : PoolPc} {c : Nat} (h : c ∈ pc.untested) : c ∈ pc.holds := by
  cases pc <;> first | exact h | cases h

/-- A connection that a user has is nowhere else. -/
theorem HttpConnectionPool.Accounted.leased_alone {n : Nat} {s : HttpConnectionPool n} {c : Nat} (h : s.Accounted)
    (hc : c ∈ s.leased) : c < s.made ∧ c ∉ s.conns ∧ ∀ i, c ∉ (s.threads i).holds := by
  have hplaces := h.made c
  have hleased : 0 < s.leased.count c := List.count_pos_iff.mpr hc
  unfold HttpConnectionPool.places HttpConnectionPool.idle HttpConnectionPool.leasedTo at hplaces
  refine ⟨?_, fun hconns => ?_, fun i hi => ?_⟩
  · by_contra hnew
    rw [if_neg hnew] at hplaces
    omega
  · have hidle : 0 < s.conns.count c := List.count_pos_iff.mpr hconns
    split at hplaces <;> omega
  · have hheld : 0 < (s.threads i).holds.count c := List.count_pos_iff.mpr hi
    have hle := Count.le_total (fun pc => pc.holds.count c) s.threads i
    split at hplaces <;> omega

/-- The connection of a call. -/
def Call.conn : Call → Option Nat
  | .send c | .recv c _ _ | .release c => some c
  | .out => none

namespace PoolClient

variable {n : Nat} {s t : PoolClient n} {i : Fin n} {c : Nat}

/-- The result has the response that the server has sent for the request. -/
def Carries (s : PoolClient n) (x : HttpResult) : Prop :=
  ∃ m, x.answer = some (.reply m) ∧ ∃ r, Reach RecvResponse.step (fun _ _ => True) (.init s.buffSize s.stringSize m.bytes) r ∧
    r.pc = .returned true ∧ x.response = some r.parser.data ∧ r.parser.data.body = m.body

/-- Nothing is outstanding on a connection, and nothing is unread. -/
def Clean (s : PoolClient n) (c : Nat) : Prop := (s.link c).unread = []

/-- Every `HttpResult` with `Error::OK` carries the response to its request, and the connections in the list are clean. -/
structure Matched (s : PoolClient n) : Prop where
  results : ∀ x ∈ s.results, x.error = .ok → s.Carries x
  conns : ∀ c ∈ s.pool.conns, s.Clean c

/-- What must be true of a step: every answer is one that the client can tell the end of, with a head that fits the buffer
    and a body that fits a string; it is read as `Aligned` says; and a connection on which an answer was not taken to its
    end does not pass the test of `ReleasePtr`. -/
def Sound (s : PoolClient n) : ClientAct n → Prop
  | .pool (.run i) =>
    match s.pool.threads i with
    | .test c => (s.link c).missed = true → s.pool.dropped c = true
    | _ => True
  | .send _ (.answered (.reply m)) => m.head.length ≤ s.buffSize ∧ m.body.length ≤ s.stringSize
  | .send _ (.answered (.other _)) => False
  | .recv i a =>
    match s.calls i with
    | .recv _ (some (.reply m)) r => RecvResponse.Aligned m.head m.payload r a
    | _ => True
  | _ => True

instance (s : PoolClient n) (a : ClientAct n) : Decidable (Sound s a) := by
  induction a using ClientAct.casesOn with
  | pool a =>
    induction a using PoolAct.casesOn with
    | run i =>
      dsimp only [Sound]
      induction s.pool.threads i using PoolPc.casesOn <;> infer_instance
    | getConnection | release | connect | close | tick => exact .isTrue trivial
  | send i sent =>
    induction sent using Sending.casesOn with
    | answered a => induction a using Answer.casesOn <;> dsimp only [Sound] <;> infer_instance
    | failed | lost => exact .isTrue trivial
  | recv i a =>
    dsimp only [Sound]
    induction s.calls i using Call.casesOn with
    | recv c answer r =>
      induction answer using Option.casesOn with
      | none => exact .isTrue trivial
      | some answer => induction answer using Answer.casesOn <;> dsimp only <;> infer_instance
    | out | send | release => exact .isTrue trivial
  | timeout => exact .isTrue trivial

/-! ### The invariant -/

/-- An answer was not taken to its end on the connection, or the connection is clean. -/
def Over (s : PoolClient n) (c : Nat) : Prop := (s.link c).missed = true ∨ s.Clean c

/-- What is true of the connection of a call, at each place. -/
def Holds (s : PoolClient n) : Call → Prop
  | .out => True
  | .send c => s.Clean c
  | .recv c (some (.reply m)) r =>
    (s.link c).unread = r.input ∧ RecvResponse.OnTrack m.head m.payload m.body r ∧
      Reach RecvResponse.step (fun _ _ => True) (.init s.buffSize s.stringSize m.bytes) r
  | .recv _ (some (.other _)) _ => False
  | .recv c none r => s.Clean c ∧ r = .init s.buffSize s.stringSize []
  | .release c => s.Over c

structure Inv (s : PoolClient n) : Prop where
  buffSize : s.buffSize < 2 ^ 31
  stringSize : s.stringSize < 2 ^ 63
  pool : s.pool.Accounted
  leased : ∀ i c, (s.calls i).conn = some c → c ∈ s.pool.leased
  one : ∀ i j c, (s.calls i).conn = some c → (s.calls j).conn = some c → i = j
  call : ∀ i, s.Holds (s.calls i)
  fresh : ∀ c, s.pool.made ≤ c → s.Clean c
  conns : ∀ c ∈ s.pool.conns, s.Clean c
  coming : ∀ i, ∀ c ∈ (s.pool.threads i).coming, s.Clean c
  untested : ∀ i, ∀ c ∈ (s.pool.threads i).untested, s.Over c
  results : ∀ x ∈ s.results, x.error = .ok → s.Carries x

theorem link_setLink (s : PoolClient n) (c : Nat) (l : Link) : (s.setLink c l).link c = l := Function.update_self ..

theorem over_setLink {l : Link} (h : l.missed = true ∨ l.unread = []) : (s.setLink c l).Over c := by
  unfold Over Clean
  rwa [link_setLink]

theorem Inv.holds {call : Call} (h : Inv s) (hcall : s.calls i = call) : s.Holds call := hcall ▸ h.call i

theorem Inv.matched (h : Inv s) : s.Matched := ⟨h.results, h.conns⟩

/-- A call may come to hold a connection that no other call holds. -/
theorem Inv.setCall (h : Inv s) {call : Call} (hleased : ∀ c, call.conn = some c → c ∈ s.pool.leased)
    (hone : ∀ c, call.conn = some c → ∀ j, j ≠ i → (s.calls j).conn ≠ some c) (hholds : s.Holds call) :
    Inv (s.setCall i call) := by
  have hcase (P : Call → Fin n → Prop) (hi : P call i) (hj : ∀ j, j ≠ i → P (s.calls j) j) :
      ∀ j, P ((s.setCall i call).calls j) j := fun j => by
    show P (Function.update s.calls i call j) j
    by_cases hji : j = i
    · subst hji
      rwa [Function.update_self]
    · rw [Function.update_of_ne hji]
      exact hj j hji
  refine { h with leased := ?_, one := ?_, call := ?_ }
  · exact hcase (fun call _ => ∀ c, call.conn = some c → c ∈ s.pool.leased) hleased fun j _ => h.leased j
  · refine hcase (fun x j => ∀ k c, x.conn = some c → ((s.setCall i call).calls k).conn = some c → j = k) ?_ ?_
    · refine fun k c hc => hcase (fun x k => x.conn = some c → i = k) (fun _ => rfl) (fun j hj hconn => ?_) k
      exact (hone c hc j hj hconn).elim
    · refine fun j hj k c hc => hcase (fun x k => x.conn = some c → j = k) (fun hconn => ?_) (fun k _ => ?_) k
      · exact (hone c hconn j hj hc).elim
      · exact h.one j k c hc
  · exact hcase (fun call _ => s.Holds call) hholds fun j _ => h.call j

theorem Inv.leave (h : Inv s) (i : Fin n) : Inv (s.setCall i .out) :=
  h.setCall (fun _ hc => (nomatch hc)) (fun _ hc => (nomatch hc)) trivial

theorem Inv.setLink (h : Inv s) (hc : c ∈ s.pool.leased) (hfree : ∀ i, (s.calls i).conn ≠ some c) (l : Link) :
    Inv (s.setLink c l) := by
  obtain ⟨hmade, hconns, hheld⟩ := h.pool.leased_alone hc
  have hlink {b : Nat} (hb : b ≠ c) : (s.setLink c l).link b = s.link b := Function.update_of_ne hb ..
  have hclean {b : Nat} (hb : b ≠ c) (h : s.Clean b) : (s.setLink c l).Clean b := by
    unfold Clean
    rwa [hlink hb]
  have hover {b : Nat} (hb : b ≠ c) (h : s.Over b) : (s.setLink c l).Over b := by
    unfold Over Clean
    rwa [hlink hb]
  refine { h with call := fun i => ?_, fresh := fun b hb => ?_, conns := fun b hb => ?_, coming := fun i b hb => ?_,
                  untested := fun i b hb => ?_ }
  · have hb := hfree i
    have hholds := h.call i
    show (s.setLink c l).Holds (s.calls i)
    cases hcall : s.calls i <;> rw [hcall] at hb hholds
    case out => trivial
    case send b => exact hclean (fun hbc => hb (congrArg some hbc)) hholds
    case release b => exact hover (fun hbc => hb (congrArg some hbc)) hholds
    case recv b answer r =>
      have hbc : b ≠ c := fun hbc => hb (congrArg some hbc)
      match answer, hholds with
      | some (.reply m), hholds => exact ⟨(congrArg Link.unread (hlink hbc)).trans hholds.1, hholds.2⟩
      | none, hholds => exact ⟨hclean hbc hholds.1, hholds.2⟩
  · exact hclean (by rintro rfl; exact Nat.not_lt.mpr hb hmade) (h.fresh b hb)
  · exact hclean (by rintro rfl; exact hconns hb) (h.conns b hb)
  · exact hclean (by rintro rfl; exact hheld i (PoolPc.coming_holds hb)) (h.coming i b hb)
  · exact hover (by rintro rfl; exact hheld i (PoolPc.untested_holds hb)) (h.untested i b hb)

/-- A step of an exchange leaves every other connection as it was. -/
theorem Inv.exchange (h : Inv s) {call : Call} (hold : (s.calls i).conn = some c) (hnew : call.conn = some c) (l : Link)
    (hholds : (s.setLink c l).Holds call) : Inv ((s.setLink c l).setCall i call) := by
  have hleased := h.leased i c hold
  have hout := h.leave i
  have hfree : ∀ j, ((s.setCall i .out).calls j).conn ≠ some c := fun j hj => by
    by_cases hji : j = i
    · subst hji
      simp only [PoolClient.setCall, Function.update_self] at hj
      cases hj
    · simp only [PoolClient.setCall, Function.update_of_ne hji] at hj
      exact hji (h.one j i c hj hold)
  have hlink : Inv ((s.setCall i .out).setLink c l) := hout.setLink hleased hfree l
  have hcall : Inv (((s.setCall i .out).setLink c l).setCall i call) := by
    refine hlink.setCall (fun b hb => ?_) (fun b hb j hj => ?_) hholds
    · obtain rfl : c = b := Option.some.inj (hnew.symm.trans hb)
      exact hleased
    · obtain rfl : c = b := Option.some.inj (hnew.symm.trans hb)
      exact hfree j
  have hidem : ((s.setCall i .out).setLink c l).setCall i call = (s.setLink c l).setCall i call := by
    simp only [PoolClient.setCall, PoolClient.setLink, Function.update_idem]
  rwa [hidem] at hcall

theorem Inv.result (h : Inv s) {x : HttpResult} (hx : x.error = .ok → s.Carries x) :
    Inv { s with results := s.results ++ [x] } := by
  refine { h with results := fun y hy hok => ?_ }
  rcases List.mem_append.mp hy with hy | hy
  · exact h.results y hy hok
  · obtain rfl := List.mem_singleton.mp hy
    exact hx hok

/-- A step of a thread in the pool. What it takes to a user or into the list was on its way or is clean. -/
theorem Inv.goto (h : Inv s) {u : HttpConnectionPool n} {pc : PoolPc} (hu : u.threads = s.pool.threads)
    (hacc : (u.goto i pc).Accounted)
    (hleased : ∀ j c, (s.calls j).conn = some c → c ∈ u.leased) (hmade : s.pool.made ≤ u.made)
    (hconns : ∀ c ∈ u.conns, s.Clean c) (hcoming : ∀ c ∈ pc.coming, s.Clean c)
    (huntested : ∀ c ∈ pc.untested, s.Over c) : Inv { s with pool := u.goto i pc } := by
  have hcase (P : PoolPc → Prop) (hi : P pc) (hj : ∀ j, P (s.pool.threads j)) (j : Fin n) :
      P ((u.goto i pc).threads j) := by
    show P (Function.update u.threads i pc j)
    by_cases hji : j = i
    · subst hji
      rwa [Function.update_self]
    · rw [Function.update_of_ne hji, hu]
      exact hj j
  exact { h with
    pool := hacc, leased := hleased, conns := hconns
    fresh := fun c hc => h.fresh c (Nat.le_trans hmade hc)
    coming := hcase (fun pc => ∀ c ∈ pc.coming, s.Clean c) hcoming h.coming
    untested := hcase (fun pc => ∀ c ∈ pc.untested, s.Over c) huntested h.untested }

/-! ### The steps -/

theorem Inv.moves (h : Inv s) {u : HttpConnectionPool n} (hok : Sound s (.pool (.run i)))
    (hm : HttpConnectionPool.Moves s.pool i u) : Inv { s with pool := u } := by
  have hacc := h.pool.moves hm
  cases hm with
  | pop hpc =>
    rename_i now
    have hsplit := s.pool.conns_split now
    refine h.goto rfl hacc h.leased (Nat.le_refl _) (fun c hc => h.conns c ?_) (fun c hc => h.conns c ?_)
      (List.forall_mem_nil _)
    · rw [hsplit]
      exact List.mem_append_right _ (List.mem_append_right _ hc)
    · rw [hsplit]
      exact List.mem_append_right _ (List.mem_append_left _ hc)
  | delete hpc =>
    refine h.goto rfl hacc h.leased (Nat.le_refl _) h.conns (fun c hc => h.coming i c ?_) (List.forall_mem_nil _)
    rwa [hpc]
  | subtractInvalid hpc =>
    rename_i size found
    cases found with
    | none => exact h.goto rfl hacc h.leased (Nat.le_refl _) h.conns (List.forall_mem_nil _) (List.forall_mem_nil _)
    | some c =>
      refine h.goto rfl hacc h.leased (Nat.le_refl _) h.conns (fun b hb => h.coming i b ?_) (List.forall_mem_nil _)
      rw [hpc]
      exact hb
  | add hpc =>
    refine h.goto rfl hacc h.leased (Nat.le_refl _) h.conns (fun c hc => h.coming i c ?_) (List.forall_mem_nil _)
    rwa [hpc]
  | hand hpc =>
    exact h.goto rfl hacc (fun j c hc => List.mem_append_left _ (h.leased j c hc)) (Nat.le_refl _) h.conns
      (List.forall_mem_nil _) (List.forall_mem_nil _)
  | request hpc =>
    refine h.goto rfl hacc h.leased (Nat.le_refl _) h.conns (List.forall_mem_nil _) fun c hc => h.untested i c ?_
    rwa [hpc]
  | kept hpc hd =>
    -- here the condition tells: what is put back was not missed
    rename_i c
    simp only [Sound, hpc] at hok
    have hover := h.untested i c (by rw [hpc]; exact List.mem_singleton_self c)
    have hclean : s.Clean c := hover.resolve_left fun hmissed => by
      rw [hok hmissed] at hd
      cases hd
    refine h.goto rfl hacc h.leased (Nat.le_refl _) h.conns (fun b hb => ?_) (List.forall_mem_nil _)
    obtain rfl := List.mem_singleton.mp hb
    exact hclean
  | keep hpc =>
    refine h.goto rfl hacc h.leased (Nat.le_refl _) (fun b hb => ?_) (List.forall_mem_nil _) (List.forall_mem_nil _)
    refine (List.mem_append.mp hb).elim (h.conns b) fun hb => h.coming i b ?_
    rwa [hpc]
  | dropped hpc | discard hpc | subtract hpc =>
    exact h.goto rfl hacc h.leased (Nat.le_refl _) h.conns (List.forall_mem_nil _) (List.forall_mem_nil _)

/-- The last pointer of a call goes away. -/
theorem Inv.release (h : Inv s) {u : HttpConnectionPool n} (hcall : s.calls i = .release c)
    (hu : s.pool.step (.release i c) = some u) : Inv ({ s with pool := u }.setCall i .out) := by
  have hacc := h.pool.step hu
  have hconn : (s.calls i).conn = some c := congrArg Call.conn hcall
  have hover : s.Over c := h.holds hcall
  cases HttpConnectionPool.step_steps hu with
  | release hpc hmem =>
    refine (h.leave i).goto rfl hacc (fun j b hb => ?_) (Nat.le_refl _) h.conns (List.forall_mem_nil _) fun b hb => ?_
    · have hji : j ≠ i := by
        rintro rfl
        simp only [PoolClient.setCall, Function.update_self] at hb
        cases hb
      simp only [PoolClient.setCall, Function.update_of_ne hji] at hb
      refine (List.mem_erase_of_ne ?_).mpr (h.leased j b hb)
      rintro rfl
      exact hji (h.one j i b hb hconn)
    · obtain rfl := List.mem_singleton.mp hb
      exact hover

/-- A call of `getConnection` comes back with a connection. -/
theorem Inv.hand (h : Inv s) {u : HttpConnectionPool n} (hpc : s.pool.threads i = .hand c)
    (hm : HttpConnectionPool.Moves s.pool i u) (hkept : Inv { s with pool := u }) :
    Inv ({ s with pool := u }.setCall i (.send c)) := by
  have hcoming : c ∈ (s.pool.threads i).coming := by
    rw [hpc]
    exact List.mem_singleton_self c
  have hnew : c ∉ s.pool.leased := fun hc => (h.pool.leased_alone hc).2.2 i (PoolPc.coming_holds hcoming)
  have hleased : c ∈ u.leased := by
    cases hm with
    | hand hpc' =>
      obtain rfl := PoolPc.hand.inj (hpc.symm.trans hpc')
      exact List.mem_append_right _ (List.mem_singleton_self c)
    | pop hpc' | delete hpc' | subtractInvalid hpc' | add hpc' | request hpc' | dropped hpc' | kept hpc' | discard hpc'
    | subtract hpc' | keep hpc' =>
      rw [hpc] at hpc'
      cases hpc'
  refine hkept.setCall (fun b hb => ?_) (fun b hb j _ hj => ?_) (h.coming i c hcoming)
  · obtain rfl : c = b := Option.some.inj hb
    exact hleased
  · obtain rfl : c = b := Option.some.inj hb
    exact hnew (h.leased j c hj)

theorem Inv.poolStep {a : PoolAct n} (h : Inv s) (hok : Sound s (.pool a)) (hs : s.poolStep a = some t) : Inv t := by
  cases a with
  | getConnection i =>
    simp only [PoolClient.poolStep] at hs
    split at hs
    case h_2 => cases hs
    obtain ⟨u, hu, rfl⟩ := Option.map_eq_some_iff.mp hs
    have hacc := h.pool.step hu
    cases HttpConnectionPool.step_steps hu
    exact h.goto rfl hacc h.leased (Nat.le_refl _) h.conns (List.forall_mem_nil _) (List.forall_mem_nil _)
  | release i c =>
    simp only [PoolClient.poolStep] at hs
    split at hs
    case h_2 => cases hs
    rename_i b hcall
    split at hs
    case isFalse => cases hs
    rename_i hcb
    subst hcb
    obtain ⟨u, hu, rfl⟩ := Option.map_eq_some_iff.mp hs
    exact h.release hcall hu
  | run i =>
    simp only [PoolClient.poolStep] at hs
    obtain ⟨u, hu, rfl⟩ := Option.map_eq_some_iff.mp hs
    have hm := HttpConnectionPool.run_moves hu
    have hkept := h.moves hok hm
    split
    · rename_i c hpc
      exact h.hand hpc hm hkept
    · exact hkept
  | connect i ok =>
    simp only [PoolClient.poolStep] at hs
    obtain ⟨u, hu, rfl⟩ := Option.map_eq_some_iff.mp hs
    have hacc := h.pool.step hu
    cases HttpConnectionPool.step_steps hu with
    | connected =>
      refine h.goto rfl hacc h.leased (Nat.le_succ _) h.conns (fun b hb => ?_) (List.forall_mem_nil _)
      obtain rfl := List.mem_singleton.mp hb
      exact h.fresh _ (Nat.le_refl _)
    | refused =>
      have hkept := h.goto rfl hacc h.leased (Nat.le_refl _) h.conns (List.forall_mem_nil _) (List.forall_mem_nil _)
      exact hkept.result fun hx => (nomatch hx)
  | close c | tick ms =>
    simp only [PoolClient.poolStep] at hs
    obtain ⟨u, hu, rfl⟩ := Option.map_eq_some_iff.mp hs
    have hacc := h.pool.step hu
    cases hu
    exact { h with pool := hacc }

theorem Inv.sendRequest (h : Inv s) {sent : Sending} (hcall : s.calls i = .send c) (hok : Sound s (.send i sent))
    (hs : s.sendRequest i c sent = some t) : Inv t := by
  have hconn : (s.calls i).conn = some c := congrArg Call.conn hcall
  have hclean : (s.link c).unread = [] := h.holds hcall
  cases sent with
  | answered a =>
    cases a with
    | other bytes => cases hok
    | reply m =>
      obtain ⟨hhead, hbody⟩ := hok
      simp only [PoolClient.sendRequest, hclean, List.nil_append] at hs
      split at hs <;> cases hs
      refine h.exchange hconn rfl _ ⟨?_, ?_, .start⟩
      · rw [link_setLink]
        rfl
      · exact RecvResponse.OnTrack.start m.isHead hhead h.buffSize hbody h.stringSize
  | failed closed a =>
    simp only [PoolClient.sendRequest] at hs
    obtain ⟨l, hl, rfl⟩ := Option.map_eq_some_iff.mp hs
    have hover : l.missed = true ∨ l.unread = [] := by
      cases a with
      | some a =>
        dsimp only at hl
        split at hl <;> cases hl
        exact Or.inl rfl
      | none =>
        cases hl
        exact Or.inr hclean
    have hrelease : Inv ((s.setLink c l).setCall i (.release c)) := h.exchange hconn rfl l (over_setLink hover)
    refine hrelease.result fun hx => ?_
    cases closed <;> cases hx
  | lost =>
    simp only [PoolClient.sendRequest, hclean] at hs
    split at hs <;> cases hs
    refine h.setCall (fun b hb => h.leased i b ?_) (fun b hb j hj hbj => hj (h.one j i b hbj ?_)) ⟨hclean, rfl⟩ <;>
      rwa [hcall]

/-- `recvResponse` has come to an end, or it goes on. -/
theorem Inv.received (h : Inv s) {answer : Option Answer} {r : RecvResponse} (hconn : (s.calls i).conn = some c)
    (hspent : r.pc = .returned true → r.input = [] ∧ s.Carries ⟨.ok, some r.parser.data, answer⟩)
    (hlost : answer = none → r.pc = .returned false ∧ r.input = [])
    (hon : (∀ response, r.pc ≠ .returned response) → (s.setLink c { s.link c with unread := r.input }).Holds (.recv c answer r)) :
    Inv (s.received i c answer r) := by
  have hrelease {l : Link} (hl : l.missed = true ∨ l.unread = []) : Inv ((s.setLink c l).setCall i (.release c)) :=
    h.exchange hconn rfl l (over_setLink hl)
  unfold PoolClient.received
  split
  · rename_i response hpc
    cases response with
    | true =>
      obtain ⟨hinput, hcarries⟩ := hspent hpc
      exact (hrelease (Or.inr hinput)).result fun _ => hcarries
    | false =>
      refine (hrelease ?_).result fun hx => (nomatch hx)
      cases answer with
      | none => exact Or.inr (hlost rfl).2
      | some a => exact Or.inl rfl
  · refine hrelease ?_
    cases answer with
    | none => exact Or.inr (hlost rfl).2
    | some a => exact Or.inl rfl
  · rename_i hgoes _
    exact h.exchange hconn rfl _ (hon hgoes)

theorem Inv.step {a : ClientAct n} (h : Inv s) (hok : Sound s a) (hs : s.step a = some t) : Inv t := by
  cases a with
  | pool a => exact h.poolStep hok hs
  | send i sent =>
    simp only [PoolClient.step] at hs
    split at hs
    case h_2 => cases hs
    rename_i c hcall
    exact h.sendRequest hcall hok hs
  | recv i a =>
    simp only [PoolClient.step] at hs
    split at hs
    case h_2 => cases hs
    rename_i c answer r hcall
    obtain ⟨r', hr, rfl⟩ := Option.map_eq_some_iff.mp hs
    have hconn : (s.calls i).conn = some c := congrArg Call.conn hcall
    have hholds := h.holds hcall
    match answer, hholds with
    | some (.reply m), ⟨_, htrack, hreach⟩ =>
      simp only [Sound, hcall] at hok
      have htrack' := htrack.step m.isHead m.finished m.framed hok hr
      have hreach' := hreach.next trivial hr
      refine h.received hconn (fun hpc => ⟨htrack.spent hr hpc, m, rfl, r', hreach', hpc, rfl, ?_⟩) (fun hx => (nomatch hx))
        fun _ => ⟨?_, htrack', hreach'⟩
      · exact (htrack'.right.response true hpc).2
      · rw [link_setLink]
    | none, ⟨hclean, hinit⟩ =>
      subst hinit
      obtain ⟨hpc, hinput⟩ := RecvResponse.step_lost hr
      refine h.received hconn (fun hx => ?_) (fun _ => ⟨hpc, hinput⟩) fun hgoes => (hgoes false hpc).elim
      rw [hpc] at hx
      cases hx
  | timeout i =>
    simp only [PoolClient.step] at hs
    split at hs
    case h_2 => cases hs
    rename_i c answer r hcall
    split at hs <;> cases hs
    have hconn : (s.calls i).conn = some c := congrArg Call.conn hcall
    have hholds := h.holds hcall
    refine h.received hconn (fun hx => (nomatch hx)) (fun hx => ⟨rfl, ?_⟩) fun hgoes => (hgoes false rfl).elim
    subst hx
    obtain ⟨-, rfl⟩ := hholds
    rfl

/-! ### Runs -/

theorem Inv.init {maxSize maxAliveTime maxRequest : UInt32} {clock buffSize stringSize : Nat} (hbuff : buffSize < 2 ^ 31)
    (hstring : stringSize < 2 ^ 63) : Inv (init n maxSize maxAliveTime maxRequest clock buffSize stringSize) where
  buffSize := hbuff
  stringSize := hstring
  pool := .init ..
  leased _ _ hc := nomatch hc
  one _ _ _ hc := nomatch hc
  call _ := trivial
  fresh _ _ := rfl
  conns _ hc := nomatch hc
  coming _ _ hc := nomatch hc
  untested _ _ hc := nomatch hc
  results _ hx := nomatch hx

/-- As long as no connection is put back on which an answer was not taken to its end, and every answer can be read, every
    response is the one to its request. -/
theorem responses_matched {maxSize maxAliveTime maxRequest : UInt32} {clock buffSize stringSize : Nat}
    (hbuff : buffSize < 2 ^ 31) (hstring : stringSize < 2 ^ 63)
    (h : Reach step Sound (init n maxSize maxAliveTime maxRequest clock buffSize stringSize) s) : s.Matched :=
  (h.invariant (P := Inv) (.init hbuff hstring) fun _ _ _ h hok hs => h.step hok hs).matched

def oneByteHead : Bytes := ascii "HTTP/1.1 200 OK\r\ncontent-length: 1\r\n\r\n"

/-- A response with a body of one byte. -/
def oneByte (x : UInt8) : Reply where
  head := oneByteHead
  payload := [x]
  body := [x]
  isHead := ⟨by decide +kernel, by decide +kernel, by decide +kernel, by decide +kernel⟩
  finished := by decide +kernel
  framed := .length (by decide +kernel) (show (whole oneByteHead).getContentLength = 1 by decide +kernel)

/-- A connection is used twice; the second call runs into its timeout, and the user closes the socket. -/
theorem responses_matched_twice :
    let s := (exec step Sound (init 1 1 10 5 1000 4096 (2 ^ 62)) [.pool (.getConnection 0), .pool (.run 0), .pool (.run 0),
      .pool (.connect 0 true), .pool (.run 0), .pool (.run 0), .send 0 (.answered (.reply (oneByte 97))), .recv 0 (.read 39),
      .recv 0 .run, .recv 0 .run, .pool (.release 0 0), .pool (.run 0), .pool (.run 0), .pool (.run 0),
      .pool (.getConnection 0), .pool (.run 0), .pool (.run 0), .pool (.run 0), .send 0 (.answered (.reply (oneByte 98))),
      .timeout 0, .pool (.close 0), .pool (.release 0 0), .pool (.run 0), .pool (.run 0), .pool (.run 0)]).get
        (by decide +kernel)
    s.results.map (·.error) = [.ok, .timeout] ∧ s.Matched := by
  intro s
  have hreach : Reach step Sound (init 1 1 10 5 1000 4096 (2 ^ 62)) s := reach_of_exec (Option.some_get _).symm
  exact ⟨by decide +kernel, responses_matched (by decide) (by decide) hreach⟩

/-- The first answer is late: the call ends with a timeout, the connection is put back, and the next call takes the first
    answer for its own. -/
theorem late_answer_matched : ¬∀ (maxSize maxAliveTime maxRequest : UInt32) (clock buffSize stringSize : Nat)
    (s : PoolClient 1), buffSize < 2 ^ 31 → stringSize < 2 ^ 63 →
    Reach step (fun _ _ => True) (init 1 maxSize maxAliveTime maxRequest clock buffSize stringSize) s → s.Matched := by
  intro h
  let s := (exec step (fun _ _ => True) (init 1 1 10 5 1000 4096 (2 ^ 62)) [.pool (.getConnection 0), .pool (.run 0),
    .pool (.run 0), .pool (.connect 0 true), .pool (.run 0), .pool (.run 0), .send 0 (.answered (.reply (oneByte 97))),
    .timeout 0, .pool (.release 0 0), .pool (.run 0), .pool (.run 0), .pool (.run 0), .pool (.getConnection 0),
    .pool (.run 0), .pool (.run 0), .pool (.run 0), .send 0 (.answered (.reply (oneByte 98))), .recv 0 (.read 39),
    .recv 0 .run, .recv 0 .run]).get (by decide +kernel)
  have hmatched := h 1 10 5 1000 4096 (2 ^ 62) s (by decide) (by decide) (reach_of_exec (Option.some_get _).symm)
  obtain ⟨x, hx⟩ : ∃ x, s.results.getLast? = some x := Option.isSome_iff_exists.mp (by decide +kernel)
  have hlast : s.results.getLast?.map (fun x => (x.error, x.response.map (·.body))) = some (.ok, some [97]) := by
    decide +kernel
  have hanswer : s.results.getLast?.bind (fun x => x.answer.map fun a => Answer.casesOn a (·.body) fun _ => []) = some [98] := by
    decide +kernel
  rw [hx] at hlast hanswer
  obtain ⟨herror, hresponse⟩ := Prod.mk.inj (Option.some.inj hlast)
  obtain ⟨m, hm, r, -, -, hr, hbody⟩ := hmatched.results x (List.mem_of_getLast? hx) herror
  have hm' : m.body = [98] := by simpa [hm] using hanswer
  have hr' : r.parser.data.body = [97] := by simpa [hr] using hresponse
  rw [hr', hm'] at hbody
  exact absurd hbody (by decide)

end PoolClient
end Http
end MyHttp
