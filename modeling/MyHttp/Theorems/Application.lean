import MyHttp.Application
import MyHttp.Lib.Run
import MyHttp.Theorems.Address.Interfaces
import MyHttp.Theorems.Address.Lookup
import MyHttp.Theorems.TcpServer

/-! The servers that `run_fiber` starts. The test of `GetInterfaceAddresses` stands the wrong way round, so that no address of an
    interface is ever served; and a process that cannot bind its addresses ends as one that has finished, which the daemon does not start
    over again. -/

namespace MyHttp
namespace Application

open Lib.CString Lib.Run

variable {host : Endian} {world : AddressWorld} {worlds : Nat → AddressWorld} {a : Bytes} {address r : List BindAddress}
  {l : List Bytes} {j k : Nat} {conf : HttpServerConf} {confs : List HttpServerConf} {httpservers : List Http.HttpServer}

/-- The text before the first colon. -/
def iface (a : Bytes) : Bytes := a.takeWhile (· ≠ 58)

/-- The address that is found for a text. -/
def found (world : AddressWorld) (a : Bytes) : Option BindAddress := if 58 ∈ a then lookupAny world a else none

/-- A text with a colon for which nothing is found, with a named interface, while `getifaddrs` gives a null pointer. -/
def Crashes (world : AddressWorld) (a : Bytes) : Prop :=
  58 ∈ a ∧ lookupAny world a = none ∧ iface a ≠ [] ∧ iface a ≠ ascii "*" ∧
    ∃ l, world.getifaddrs = some l ∧ ∃ next ∈ l, Address.Null Address.afUnspec next

/-! ### One address -/

theorem resolve_eq (host : Endian) (world : AddressWorld) (address : List BindAddress) (a : Bytes) :
    (resolve host world address a = none ↔ Crashes world a) ∧
      ∀ r, resolve host world address a = some r → r = address ++ (found world a).toList := by
  by_cases hcolon : 58 ∈ a
  · obtain ⟨before, after, rfl, hbefore⟩ := List.eq_append_cons_of_mem hcolon
    have hiface : iface (before ++ 58 :: after) = before := by
      unfold iface
      rw [List.takeWhile_append_of_pos fun d hd => decide_eq_true (ne_of_mem_of_not_mem hd hbefore)]
      simp
    unfold resolve found Crashes
    rw [Address.memchr_append hbefore, if_pos hcolon, hiface, and_iff_right hcolon]
    dsimp only
    rw [Address.take_before]
    cases hlookup : lookupAny world (before ++ 58 :: after) with
    | some addr =>
      refine ⟨iff_of_false (Option.some_ne_none _) fun h => Option.some_ne_none _ h.1, ?_⟩
      rintro r ⟨⟩
      rfl
    | none =>
      refine ⟨?_, fun r hr => ?_⟩
      · rw [Option.map_eq_none_iff, Address.getInterfaceAddresses_none_iff, and_iff_right rfl]
      · obtain ⟨x, hx, rfl⟩ := Option.map_eq_some_iff.mp hr
        rw [Option.toList_none, List.append_nil]
        -- what is found is left out, and what is not found is empty
        rcases Address.getInterfaceAddresses_result hx with hfound | hempty
        · exact if_pos hfound
        · rw [hempty, List.map_nil, List.append_nil, ite_self]
  · unfold resolve found Crashes
    rw [Address.memchr_none hcolon, if_neg hcolon]
    refine ⟨iff_of_false (Option.some_ne_none _) fun h => hcolon h.1, ?_⟩
    rintro r ⟨⟩
    exact (List.append_nil _).symm

/-! ### One server -/

/-- The addresses of a server. -/
def addresses (worlds : Nat → AddressWorld) (j : Nat) (l : List Bytes) : List BindAddress :=
  (l.zipIdx j).filterMap fun x => found (worlds x.2) x.1

theorem resolveAll_eq (host : Endian) (worlds : Nat → AddressWorld) (j : Nat) (address : List BindAddress) (l : List Bytes) :
    (resolveAll host worlds j address l = none ↔ ∃ x ∈ l.zipIdx j, Crashes (worlds x.2) x.1) ∧
      ∀ r, resolveAll host worlds j address l = some r → r = address ++ addresses worlds j l := by
  induction l generalizing j address with
  | nil =>
    refine ⟨iff_of_false (Option.some_ne_none _) fun ⟨_, h, _⟩ => List.not_mem_nil h, ?_⟩
    rintro r ⟨⟩
    exact (List.append_nil _).symm
  | cons a l ih =>
    obtain ⟨hcrash, hfound⟩ := resolve_eq host (worlds j) address a
    unfold resolveAll
    cases hnext : resolve host (worlds j) address a with
    | none => exact ⟨iff_of_true rfl ⟨(a, j), List.mem_cons_self, hcrash.mp hnext⟩, nofun⟩
    | some r =>
      have hlive : ¬Crashes (worlds j) a := fun h => Option.some_ne_none r (hnext.symm.trans (hcrash.mpr h))
      obtain ⟨ihcrash, ihfound⟩ := ih (j + 1) r
      constructor
      · simp only [Option.bind_some, ihcrash, List.zipIdx_cons, List.mem_cons, exists_eq_or_imp, hlive, false_or]
      · intro r' hr'
        rw [ihfound r' hr', hfound r hnext, List.append_assoc]
        congr 1
        unfold addresses
        rw [List.zipIdx_cons, List.filterMap_cons]
        cases found (worlds j) a <;> rfl

/-- A null pointer is followed for one of the addresses. -/
def ServerCrashes (worlds : Nat → AddressWorld) (conf : HttpServerConf) : Prop :=
  ∃ x ∈ conf.address.zipIdx, Crashes (worlds x.2) x.1

/-- All addresses of the server can be bound and listened on. -/
def Serves (worlds : Nat → AddressWorld) (conf : HttpServerConf) : Prop :=
  ¬ServerCrashes worlds conf ∧ ∀ addr ∈ addresses worlds 0 conf.address, TcpServer.Succeeds addr

/-- The server of a configuration. -/
def server (worlds : Nat → AddressWorld) (conf : HttpServerConf) : Http.HttpServer :=
  ⟨conf.keepalive ≠ 0, if conf.name ≠ [] then conf.name else ascii "sylar/1.0.0",
    ⟨(addresses worlds 0 conf.address).map TcpServer.sockOf⟩, false⟩

theorem startServer_serves (h : ∀ addr ∈ addresses worlds 0 conf.address, TcpServer.Succeeds addr) :
    startServer conf (addresses worlds 0 conf.address) = some (server worlds conf) := by
  unfold startServer
  rw [TcpServer.bind_all _ h]
  rfl

theorem startServer_fails (h : ¬∀ addr ∈ address, TcpServer.Succeeds addr) : startServer conf address = none := by
  unfold startServer
  rw [TcpServer.bind_failed _ h]

/-! ### All servers -/

theorem runFiber_cons (host : Endian) (world : Nat → Nat → AddressWorld) (k : Nat) (httpservers : List Http.HttpServer)
    (conf : HttpServerConf) (confs : List HttpServerConf) :
    (ServerCrashes (world k) conf ∧ runFiber host world k httpservers (conf :: confs) = (.crashed, httpservers)) ∨
    (¬ServerCrashes (world k) conf ∧ (∃ addr ∈ addresses (world k) 0 conf.address, ¬TcpServer.Succeeds addr) ∧
      runFiber host world k httpservers (conf :: confs) = (.exited, httpservers)) ∨
    (Serves (world k) conf ∧ runFiber host world k httpservers (conf :: confs) =
      runFiber host world (k + 1) (httpservers ++ [server (world k) conf]) confs) := by
  obtain ⟨hcrash, hfound⟩ := resolveAll_eq host (world k) 0 [] conf.address
  rw [runFiber]
  cases hnext : resolveAll host (world k) 0 [] conf.address with
  | none => exact .inl ⟨hcrash.mp hnext, rfl⟩
  | some address =>
    have hlive : ¬ServerCrashes (world k) conf := fun h => Option.some_ne_none address (hnext.symm.trans (hcrash.mpr h))
    obtain rfl : address = addresses (world k) 0 conf.address := hfound address hnext
    by_cases hall : ∀ addr ∈ addresses (world k) 0 conf.address, TcpServer.Succeeds addr
    · refine .inr (.inr ⟨⟨hlive, hall⟩, ?_⟩)
      dsimp only
      rw [startServer_serves hall]
    · refine .inr (.inl ⟨hlive, ?_, ?_⟩)
      · simpa using hall
      · dsimp only
        rw [startServer_fails hall]

/-- All these servers serve, the first one at this place. -/
def AllServe (world : Nat → Nat → AddressWorld) (k : Nat) (confs : List HttpServerConf) : Prop :=
  ∀ x ∈ confs.zipIdx k, Serves (world x.2) x.1

def servers (world : Nat → Nat → AddressWorld) (k : Nat) (confs : List HttpServerConf) : List Http.HttpServer :=
  (confs.zipIdx k).map fun x => server (world x.2) x.1

/-- Behind servers that all serve. -/
theorem runFiber_append {world : Nat → Nat → AddressWorld} {before : List HttpServerConf} (h : AllServe world k before) :
    runFiber host world k httpservers (before ++ confs) =
      runFiber host world (k + before.length) (httpservers ++ servers world k before) confs := by
  induction before generalizing k httpservers with
  | nil => exact congrArg (fun hs => runFiber host world k hs confs) (List.append_nil _).symm
  | cons conf before ih =>
    obtain ⟨hconf, hbefore⟩ := List.forall_mem_cons.mp h
    have hcons : servers world k (conf :: before) = server (world k) conf :: servers world (k + 1) before := rfl
    rcases runFiber_cons host world k httpservers conf (before ++ confs) with ⟨hcrash, -⟩ | ⟨-, ⟨addr, hmem, hnot⟩, -⟩ | ⟨-, heq⟩
    · exact absurd hcrash hconf.1
    · exact absurd (hconf.2 addr hmem) hnot
    · rw [List.cons_append, heq, ih hbefore, hcons, List.append_assoc, List.singleton_append, List.length_cons]
      congr 1
      omega

/-- The first server that does not serve ends it. -/
theorem runFiber_cases (host : Endian) (world : Nat → Nat → AddressWorld) (k : Nat) (confs : List HttpServerConf) :
    AllServe world k confs ∨ ∃ before conf after, confs = before ++ conf :: after ∧ AllServe world k before ∧
      (ServerCrashes (world (k + before.length)) conf ∨ ¬ServerCrashes (world (k + before.length)) conf ∧
        ∃ addr ∈ addresses (world (k + before.length)) 0 conf.address, ¬TcpServer.Succeeds addr) := by
  induction confs generalizing k with
  | nil => exact .inl nofun
  | cons conf confs ih =>
    have hnone : AllServe world k [] := nofun
    rcases runFiber_cons host world k [] conf confs with ⟨hcrash, -⟩ | ⟨hlive, hfails, -⟩ | ⟨hconf, -⟩
    · exact .inr ⟨[], conf, confs, rfl, hnone, .inl hcrash⟩
    · exact .inr ⟨[], conf, confs, rfl, hnone, .inr ⟨hlive, hfails⟩⟩
    · rcases ih (k + 1) with hall | ⟨before, conf', after, rfl, hbefore, hends⟩
      · exact .inl (List.forall_mem_cons.mpr ⟨hconf, hall⟩)
      · refine .inr ⟨conf :: before, conf', after, rfl, List.forall_mem_cons.mpr ⟨hconf, hbefore⟩, ?_⟩
        have hplace : k + (conf :: before).length = k + 1 + before.length := by
          rw [List.length_cons]
          omega
        rwa [hplace]

section Ends

variable {world : Nat → Nat → AddressWorld} {before : List HttpServerConf}

theorem runFiber_returns (h : AllServe world 0 confs) :
    runFiber host world 0 [] confs = (.returned, servers world 0 confs) := by
  have heq : runFiber host world 0 [] (confs ++ []) = runFiber host world (0 + confs.length) ([] ++ servers world 0 confs) [] :=
    runFiber_append h
  rw [List.append_nil] at heq
  exact heq

theorem runFiber_crashes (h : AllServe world 0 before) (hcrash : ServerCrashes (world before.length) conf) :
    runFiber host world 0 [] (before ++ conf :: confs) = (.crashed, servers world 0 before) := by
  rw [runFiber_append h, Nat.zero_add, List.nil_append]
  rcases runFiber_cons host world before.length (servers world 0 before) conf confs with ⟨-, heq⟩ | ⟨hlive, -⟩ | ⟨hserves, -⟩
  · exact heq
  · exact absurd hcrash hlive
  · exact absurd hcrash hserves.1

theorem runFiber_exits (h : AllServe world 0 before) (hlive : ¬ServerCrashes (world before.length) conf)
    (hfails : ∃ addr ∈ addresses (world before.length) 0 conf.address, ¬TcpServer.Succeeds addr) :
    runFiber host world 0 [] (before ++ conf :: confs) = (.exited, servers world 0 before) := by
  rw [runFiber_append h, Nat.zero_add, List.nil_append]
  rcases runFiber_cons host world before.length (servers world 0 before) conf confs with ⟨hcrash, -⟩ | ⟨-, -, heq⟩ | ⟨hserves, -⟩
  · exact absurd hcrash hlive
  · exact heq
  · obtain ⟨addr, hmem, hnot⟩ := hfails
    exact absurd (hserves.2 addr hmem) hnot

/-- A server crashes behind servers that all serve. -/
def Crash (world : Nat → Nat → AddressWorld) (confs before : List HttpServerConf) : Prop :=
  AllServe world 0 before ∧ ∃ conf after, confs = before ++ conf :: after ∧ ServerCrashes (world before.length) conf

/-- A server behind servers that all serve has an address that cannot be bound. -/
def Unbound (world : Nat → Nat → AddressWorld) (confs before : List HttpServerConf) : Prop :=
  AllServe world 0 before ∧ ∃ conf after, confs = before ++ conf :: after ∧ ¬ServerCrashes (world before.length) conf ∧
    ∃ addr ∈ addresses (world before.length) 0 conf.address, ¬TcpServer.Succeeds addr

theorem Crash.runFiber (h : Crash world confs before) : runFiber host world 0 [] confs = (.crashed, servers world 0 before) := by
  obtain ⟨hbefore, conf, after, rfl, hcrash⟩ := h
  exact runFiber_crashes hbefore hcrash

theorem Unbound.runFiber (h : Unbound world confs before) : runFiber host world 0 [] confs = (.exited, servers world 0 before) := by
  obtain ⟨hbefore, conf, after, rfl, hlive, hfails⟩ := h
  exact runFiber_exits hbefore hlive hfails

theorem runFiber_ends (host : Endian) (world : Nat → Nat → AddressWorld) (confs : List HttpServerConf) :
    (AllServe world 0 confs ∧ runFiber host world 0 [] confs = (.returned, servers world 0 confs)) ∨
    (∃ before, Crash world confs before ∧ runFiber host world 0 [] confs = (.crashed, servers world 0 before)) ∨
    ∃ before, Unbound world confs before ∧ runFiber host world 0 [] confs = (.exited, servers world 0 before) := by
  rcases runFiber_cases host world 0 confs with hall | ⟨before, conf, after, rfl, hbefore, hends⟩
  · exact .inl ⟨hall, runFiber_returns hall⟩
  · rw [Nat.zero_add] at hends
    rcases hends with hcrash | ⟨hlive, hfails⟩
    · exact .inr (.inl ⟨before, ⟨hbefore, conf, after, rfl, hcrash⟩, runFiber_crashes hbefore hcrash⟩)
    · exact .inr (.inr ⟨before, ⟨hbefore, conf, after, rfl, hlive, hfails⟩, runFiber_exits hbefore hlive hfails⟩)

end Ends

/-- `run_fiber` starts a server for each configuration, with exactly the addresses that `getaddrinfo` finds, or it ends the process at
    the first one for which it cannot. -/
theorem runFiber_serves (host : Endian) (world : Nat → Nat → AddressWorld) (confs : List HttpServerConf)
    (httpservers : List Http.HttpServer) :
    (runFiber host world 0 [] confs = (.returned, httpservers) ↔ AllServe world 0 confs ∧ httpservers = servers world 0 confs) ∧
    (runFiber host world 0 [] confs = (.crashed, httpservers) ↔
      ∃ before, Crash world confs before ∧ httpservers = servers world 0 before) ∧
    (runFiber host world 0 [] confs = (.exited, httpservers) ↔
      ∃ before, Unbound world confs before ∧ httpservers = servers world 0 before) := by
  refine ⟨⟨fun h => ?_, ?_⟩, ⟨fun h => ?_, ?_⟩, ⟨fun h => ?_, ?_⟩⟩
  · rcases runFiber_ends host world confs with ⟨hall, heq⟩ | ⟨before, -, heq⟩ | ⟨before, -, heq⟩
    · exact ⟨hall, (Prod.mk.inj (h.symm.trans heq)).2⟩
    · cases (Prod.mk.inj (h.symm.trans heq)).1
    · cases (Prod.mk.inj (h.symm.trans heq)).1
  · rintro ⟨hall, rfl⟩
    exact runFiber_returns hall
  · rcases runFiber_ends host world confs with ⟨-, heq⟩ | ⟨before, hcrash, heq⟩ | ⟨before, -, heq⟩
    · cases (Prod.mk.inj (h.symm.trans heq)).1
    · exact ⟨before, hcrash, (Prod.mk.inj (h.symm.trans heq)).2⟩
    · cases (Prod.mk.inj (h.symm.trans heq)).1
  · rintro ⟨before, hcrash, rfl⟩
    exact hcrash.runFiber
  · rcases runFiber_ends host world confs with ⟨-, heq⟩ | ⟨before, -, heq⟩ | ⟨before, hunbound, heq⟩
    · cases (Prod.mk.inj (h.symm.trans heq)).1
    · cases (Prod.mk.inj (h.symm.trans heq)).1
    · exact ⟨before, hunbound, (Prod.mk.inj (h.symm.trans heq)).2⟩
  · rintro ⟨before, hunbound, rfl⟩
    exact hunbound.runFiber

/-! ### Processes -/

/-- A process that is started over again: it crashes, or its servers have sockets until it ends with a status. -/
def Fails (confs : List HttpServerConf) (child : Child) : Prop :=
  child.pidfile = true ∧ ((∃ before, Crash child.addresses confs before) ∨
    AllServe child.addresses 0 confs ∧ (∃ x ∈ confs.zipIdx, addresses (child.addresses x.2) 0 x.1.address ≠ []) ∧ child.killed ≠ 0)

theorem no_socks_iff (world : Nat → Nat → AddressWorld) (confs : List HttpServerConf) :
    ((servers world 0 confs).all fun server => server.tcp.socks.isEmpty) = true ↔
      ¬∃ x ∈ confs.zipIdx, addresses (world x.2) 0 x.1.address ≠ [] := by
  unfold servers
  rw [List.all_map, List.all_eq_true]
  simp only [Function.comp_apply, server, List.isEmpty_iff, List.map_eq_nil_iff]
  push Not
  rfl

theorem Unbound.status {child : Child} {before : List HttpServerConf} (h : Unbound child.addresses confs before) :
    status host confs child = 0 := by
  unfold Application.status
  rw [h.runFiber]
  exact ite_self 0

theorem status_ne_zero_iff (host : Endian) (confs : List HttpServerConf) (child : Child) :
    status host confs child ≠ 0 ↔ Fails confs child := by
  unfold status Fails
  cases hpid : child.pidfile with
  | false => exact iff_of_false (fun h => h rfl) fun h => Bool.false_ne_true h.1
  | true =>
    rw [if_pos rfl, and_iff_right rfl]
    rcases runFiber_ends host child.addresses confs with ⟨hall, heq⟩ | ⟨before, hcrash, heq⟩ | ⟨before, -, heq⟩
    · have hnone : ¬∃ before, Crash child.addresses confs before := fun ⟨_, hcrash⟩ => by
        cases (Prod.mk.inj (heq.symm.trans hcrash.runFiber)).1
      rw [heq, or_iff_right hnone, and_iff_right hall]
      dsimp only
      split
      case isTrue hempty => exact iff_of_false (fun h => h rfl) fun h => (no_socks_iff child.addresses confs).mp hempty h.1
      case isFalse hsome => exact (and_iff_right (not_not.mp fun h => hsome ((no_socks_iff child.addresses confs).mpr h))).symm
    · rw [heq]
      exact iff_of_true (Nat.succ_ne_zero 10) (.inl ⟨before, hcrash⟩)
    · rw [heq]
      refine iff_of_false (fun h => h rfl) ?_
      rintro (⟨before', hcrash⟩ | ⟨hall, -⟩)
      · cases (Prod.mk.inj (heq.symm.trans hcrash.runFiber)).1
      · cases (Prod.mk.inj (heq.symm.trans (runFiber_returns hall))).1

end Application

namespace Daemon

open Lib.CString Lib.Run

variable {host : Endian} {confs : List HttpServerConf} {s t : Daemon} {a : Act}

/-- What holds at each place: the children that were started over again have failed, one for each count. -/
def Sound (confs : List HttpServerConf) (s : Daemon) : Prop :=
  match s.pc with
  | .start | .fork | .sleep =>
    s.restartCount = BitVec.ofNat 32 s.children.length ∧ ∀ child ∈ s.children, Application.Fails confs child
  | .waitpid child => ∃ before, s.children = before ++ [child] ∧ s.restartCount = BitVec.ofNat 32 before.length ∧
      ∀ child ∈ before, Application.Fails confs child
  | .returned rt =>
    (rt = -1 ∧ s.restartCount = BitVec.ofNat 32 s.children.length ∧ ∀ child ∈ s.children, Application.Fails confs child) ∨
    (rt = 0 ∧ ∃ before child, s.children = before ++ [child] ∧ s.restartCount = BitVec.ofNat 32 before.length ∧
      (∀ child ∈ before, Application.Fails confs child) ∧ ¬Application.Fails confs child)

theorem Sound.step (h : Sound confs s) (hs : s.step host confs a = some t) : Sound confs t := by
  obtain ⟨pc, restartCount, children⟩ := s
  unfold Daemon.step at hs
  cases a with
  | daemon fails =>
    cases pc with
    | start =>
      cases hs
      cases fails
      · exact h
      · exact .inl ⟨rfl, h⟩
    | _ => cases hs
  | fork child =>
    cases pc with
    | fork =>
      cases child with
      | none =>
        cases hs
        exact .inl ⟨rfl, h⟩
      | some child =>
        cases hs
        exact ⟨children, rfl, h⟩
    | _ => cases hs
  | waitpid =>
    cases pc with
    | waitpid child =>
      obtain ⟨before, hchildren, hcount, hbefore⟩ := h
      dsimp only at hchildren hcount
      subst hchildren
      dsimp only at hs
      by_cases hfails : Application.Fails confs child
      · rw [if_pos ((Application.status_ne_zero_iff host confs child).mpr hfails)] at hs
        cases hs
        refine ⟨?_, List.forall_mem_append.mpr ⟨hbefore, List.forall_mem_singleton.mpr hfails⟩⟩
        dsimp only
        rw [hcount, List.length_append, List.length_singleton, BitVec.ofNat_add]
        rfl
      · rw [if_neg fun h => hfails ((Application.status_ne_zero_iff host confs child).mp h)] at hs
        cases hs
        exact .inr ⟨rfl, before, child, rfl, hcount, hbefore, hfails⟩
    | _ => cases hs
  | wake =>
    cases pc with
    | sleep =>
      cases hs
      exact h
    | _ => cases hs

/-- A child that has not failed is the last one, and the daemon ends as it ends. -/
theorem Sound.last (h : Sound confs s) {child : Application.Child} (hmem : child ∈ s.children)
    (hfinished : ¬Application.Fails confs child) :
    s.children.getLast? = some child ∧ ∀ rt, s.pc = .returned rt → rt = 0 := by
  have hlast : ∀ before last, s.children = before ++ [last] → (∀ v ∈ before, Application.Fails confs v) →
      s.children.getLast? = some child := by
    intro before last hchildren hbefore
    rw [hchildren] at hmem ⊢
    rw [List.getLast?_concat]
    rcases List.mem_append.mp hmem with hmem | hmem
    · exact absurd (hbefore child hmem) hfinished
    · rw [List.mem_singleton.mp hmem]
  unfold Sound at h
  cases hpc : s.pc with
  | start | fork | sleep =>
    rw [hpc] at h
    exact absurd (h.2 child hmem) hfinished
  | waitpid last =>
    rw [hpc] at h
    obtain ⟨before, hchildren, -, hbefore⟩ := h
    exact ⟨hlast before last hchildren hbefore, nofun⟩
  | returned rt =>
    rw [hpc] at h
    rcases h with ⟨-, -, hall⟩ | ⟨rfl, before, last, hchildren, -, hbefore, -⟩
    · exact absurd (hall child hmem) hfinished
    · refine ⟨hlast before last hchildren hbefore, ?_⟩
      rintro rt ⟨⟩
      rfl

end Daemon
end MyHttp
