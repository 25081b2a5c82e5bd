import MyHttp.TcpServer

/-! `TcpServer::bind` takes back all sockets when one address fails, also those of earlier calls. -/

namespace MyHttp
namespace TcpServer

variable {s : TcpServer} {addr : BindAddress} {addrs fails : List BindAddress} {socks : List Socket}

/-- The address is bound and listened on. -/
def Succeeds (addr : BindAddress) : Prop := addr.socket.isSome = true ∧ addr.bound = true ∧ addr.listened = true

instance : DecidablePred Succeeds := fun addr =>
  inferInstanceAs (Decidable (addr.socket.isSome = true ∧ addr.bound = true ∧ addr.listened = true))

/-- The socket of an address. -/
def sockOf (addr : BindAddress) : Socket := ⟨addr.family, addr.socket, some addr.name⟩

/-- What a call of `bind` is to leave, when there are no failures to begin with. -/
structure AllOrNothing (s : TcpServer) (addrs : List BindAddress) (r : Bool × List BindAddress × TcpServer) : Prop where
  result : r.1 = true ↔ ∀ addr ∈ addrs, Succeeds addr
  all : r.1 = true → r.2.2.socks = s.socks ++ addrs.map sockOf
  nothing : r.1 = false → r.2.1 = addrs.filter (fun addr => ¬Succeeds addr) ∧ r.2.2.socks = s.socks

/-! ### The loop -/

theorem bindLoop_cons (addr : BindAddress) (addrs fails : List BindAddress) (socks : List Socket) :
    bindLoop fails socks (addr :: addrs) =
      if Succeeds addr then bindLoop fails (socks ++ [sockOf addr]) addrs else bindLoop (fails ++ [addr]) socks addrs := by
  obtain ⟨family, name, socket, bound, listened⟩ := addr
  cases socket with
  | none => simp [bindLoop, Socket.bind, Socket.newSock, Socket.createTCP, Socket.isValid, Succeeds]
  | some fd =>
    cases bound <;> cases listened <;>
      simp [bindLoop, Socket.bind, Socket.listen, Socket.newSock, Socket.createTCP, Socket.isValid, Succeeds, sockOf]

/-- The addresses that fail are added to the one list, and the sockets of the others to the other one. -/
theorem bindLoop_eq (addrs fails : List BindAddress) (socks : List Socket) : bindLoop fails socks addrs =
    (fails ++ addrs.filter (fun addr => ¬Succeeds addr), socks ++ (addrs.filter fun addr => Succeeds addr).map sockOf) := by
  induction addrs generalizing fails socks with
  | nil => simp [bindLoop]
  | cons addr addrs ih =>
    rw [bindLoop_cons]
    by_cases hok : Succeeds addr
    · rw [if_pos hok, ih, List.filter_cons_of_neg (by simpa using hok), List.filter_cons_of_pos (by simpa using hok),
        List.map_cons, List.append_assoc, List.singleton_append]
    · rw [if_neg hok, ih, List.filter_cons_of_pos (by simpa using hok), List.filter_cons_of_neg (by simpa using hok),
        List.append_assoc, List.singleton_append]

/-! ### The call -/

theorem bind_all (s : TcpServer) (h : ∀ addr ∈ addrs, Succeeds addr) :
    s.bind addrs [] = (true, [], ⟨s.socks ++ addrs.map sockOf⟩) := by
  have hfails : addrs.filter (fun addr => ¬Succeeds addr) = [] :=
    List.filter_eq_nil_iff.mpr fun addr hmem => by simpa using h addr hmem
  have hsocks : addrs.filter (fun addr => Succeeds addr) = addrs :=
    List.filter_eq_self.mpr fun addr hmem => decide_eq_true (h addr hmem)
  unfold bind
  rw [bindLoop_eq, hfails, hsocks]
  rfl

theorem bind_failed (s : TcpServer) (h : ¬∀ addr ∈ addrs, Succeeds addr) :
    s.bind addrs [] = (false, addrs.filter fun addr => ¬Succeeds addr, ⟨[]⟩) := by
  have hfails : addrs.filter (fun addr => ¬Succeeds addr) ≠ [] := by
    intro hnil
    refine h fun addr hmem => Decidable.byContradiction fun hnot => ?_
    exact List.filter_eq_nil_iff.mp hnil addr hmem (decide_eq_true hnot)
  unfold bind
  rw [bindLoop_eq]
  exact if_pos hfails

end TcpServer
end MyHttp
