import MyHttp.Socket
import MyHttp.Lib.Owners
import MyHttp.Lib.Run

/-! Every descriptor is held by one socket, or was lost in `accept`; a socket keeps the first addresses that it has asked for; and
    only a socket of `AF_UNIX` follows a null pointer. -/

namespace MyHttp
namespace Sockets

open Lib Lib.Run

variable {s t : Sockets} {i j fd : Nat} {o : SocketObject} {f : SocketObject → SocketObject}

def sock (s : Sockets) (i : Nat) : Option Nat := (s.objects i).bind (·.sock)

/-- What holds of one socket. -/
structure Fair (o : SocketObject) : Prop where
  connected : o.isConnected = true → o.sock.isSome = true ∨ o.udp = true
  unix : o.family = .unix → o.localAddress = none ∧ o.remoteAddress = none

structure Sound (s : Sockets) : Prop where
  owns : Owns s.sock s.isOpen s.lost
  fair : ∀ i o, s.objects i = some o → Fair o
  crash : s.crashed = true → ∃ i o, s.objects i = some o ∧ o.family = .unix

/-! ### The parts of a call -/

theorem objects_modify (s : Sockets) (i j : Nat) (f : SocketObject → SocketObject) :
    (s.modify i f).objects j = if j = i then (s.objects j).map f else s.objects j := by
  by_cases h : j = i
  · rw [h, if_pos rfl]
    exact Function.update_self ..
  · rw [if_neg h]
    exact Function.update_of_ne h ..

theorem sock_modify (h : ∀ o, s.objects i = some o → (f o).sock = o.sock) : (s.modify i f).sock = s.sock := by
  funext j
  rw [sock, objects_modify]
  split
  case isTrue heq =>
    subst heq
    cases hj : s.objects j with
    | none => rw [sock, hj]; rfl
    | some o => rw [sock, hj]; exact h o hj
  case isFalse => rfl

theorem sock_modify_const {x : Option Nat} (hi : (s.objects i).isSome = true) (h : ∀ o, (f o).sock = x) :
    (s.modify i f).sock = Function.update s.sock i x := by
  funext j
  rw [sock, objects_modify]
  by_cases heq : j = i
  · obtain ⟨o, ho⟩ := Option.isSome_iff_exists.mp hi
    rw [if_pos heq, heq, ho, Function.update_self]
    exact h o
  · rw [if_neg heq, Function.update_of_ne heq]
    rfl

theorem mem_modify {o' : SocketObject} (h : (s.modify i f).objects j = some o') :
    s.objects j = some o' ∨ ∃ o, j = i ∧ s.objects i = some o ∧ o' = f o := by
  rw [objects_modify] at h
  split at h
  case isTrue heq =>
    subst heq
    obtain ⟨o, ho, rfl⟩ := Option.map_eq_some_iff.mp h
    exact .inr ⟨o, rfl, ho, rfl⟩
  case isFalse => exact .inl h

theorem Sound.of_modify {isOpen : Nat → Bool} {lost : List Nat} (h : s.Sound)
    (howns : Owns (s.modify i f).sock isOpen lost) (hfair : ∀ o, s.objects i = some o → Fair o → Fair (f o))
    (hfamily : ∀ o, (f o).family = o.family) : Sound { s.modify i f with isOpen, lost } := by
  refine ⟨howns, fun j o' hj => ?_, fun hcrash => ?_⟩
  · rcases mem_modify hj with hj | ⟨o, rfl, ho, rfl⟩
    · exact h.fair j o' hj
    · exact hfair o ho (h.fair _ o ho)
  · obtain ⟨j, o, hj, hunix⟩ := h.crash hcrash
    by_cases heq : j = i
    · refine ⟨j, f o, ?_, (hfamily o).trans hunix⟩
      exact (objects_modify s i j f).trans (by rw [if_pos heq, hj]; rfl)
    · exact ⟨j, o, (objects_modify s i j f).trans (by rw [if_neg heq, hj]), hunix⟩

theorem Sound.modify (h : s.Sound) (hsock : ∀ o, (f o).sock = o.sock) (hfamily : ∀ o, (f o).family = o.family)
    (hfair : ∀ o, s.objects i = some o → Fair o → Fair (f o)) : (s.modify i f).Sound := by
  refine h.of_modify ?_ hfair hfamily
  rw [sock_modify fun o _ => hsock o]
  exact h.owns

theorem Sound.newSock (h : s.Sound) (hi : (s.objects i).isSome = true) (hnone : s.isValid i = false) {fd : Option Nat}
    (hfree : s.free fd = true) : (s.newSock i fd).Sound := by
  cases fd with
  | none => exact h
  | some fd =>
    have hsock : s.sock i = none := by
      obtain ⟨o, ho⟩ := Option.isSome_iff_exists.mp hi
      rw [isValid, ho] at hnone
      rw [sock, ho]
      exact Option.isSome_eq_false_iff.mp hnone |> Option.isNone_iff_eq_none.mp
    have hclosed : s.isOpen fd = false := by simpa [free] using hfree
    have hholds : (s.modify i fun o => { o with sock := some fd }).sock = Function.update s.sock i (some fd) :=
      sock_modify_const hi fun _ => rfl
    refine h.of_modify ?_ (fun o _ ho => ⟨fun _ => .inl rfl, ho.unix⟩) fun _ => rfl
    rw [hholds]
    exact h.owns.take hsock hclosed

theorem Sound.close (h : s.Sound) (i : Nat) : (s.close i).Sound := by
  unfold Sockets.close
  split
  case h_1 => exact h.modify (fun _ => rfl) (fun _ => rfl) fun o _ ho => ⟨nofun, ho.unix⟩
  case h_2 fd hfd =>
    have hi : (s.objects i).isSome = true := by
      obtain ⟨o, ho, -⟩ := Option.bind_eq_some_iff.mp hfd
      rw [ho]
      rfl
    have hholds : (s.modify i fun o => { o with isConnected := false, sock := none }).sock = Function.update s.sock i none :=
      sock_modify_const hi fun _ => rfl
    refine h.of_modify ?_ (fun o _ ho => ⟨nofun, ho.unix⟩) fun _ => rfl
    rw [hholds]
    exact h.owns.give hfd

theorem keep_unix {result a : Option Nat} (h : keep .unix none result = some a) : a = none := by
  cases result with
  | none => exact (Option.some.inj h).symm
  | some => cases h

theorem keep_none {family : Family} {cached result : Option Nat} (h : keep family cached result = none) : family = .unix := by
  cases cached <;> cases result <;> simp_all [keep]

theorem Sound.crashes (h : s.Sound) (hi : s.objects i = some o) (hunix : o.family = .unix) : Sound { s with crashed := true } :=
  ⟨h.owns, h.fair, fun _ => ⟨i, o, hi, hunix⟩⟩

theorem Sound.getLocalAddress (h : s.Sound) (i : Nat) (name : Option Nat) : (s.getLocalAddress i name).Sound := by
  unfold Sockets.getLocalAddress
  cases hi : s.objects i with
  | none => exact h
  | some o =>
    cases hkeep : keep o.family o.localAddress name with
    | none =>
      simp only [Option.map_some, hkeep]
      exact h.crashes hi (keep_none hkeep)
    | some a =>
      simp only [Option.map_some, hkeep]
      refine h.modify (fun _ => rfl) (fun _ => rfl) fun o' ho' hfair => ⟨hfair.connected, fun hunix => ?_⟩
      obtain rfl := Option.some.inj (hi.symm.trans ho')
      have hnone := hfair.unix hunix
      rw [hunix, hnone.1] at hkeep
      exact ⟨keep_unix hkeep, hnone.2⟩

theorem Sound.getRemoteAddress (h : s.Sound) (i : Nat) (peer : Option Nat) : (s.getRemoteAddress i peer).Sound := by
  unfold Sockets.getRemoteAddress
  cases hi : s.objects i with
  | none => exact h
  | some o =>
    cases hkeep : keep o.family o.remoteAddress peer with
    | none =>
      simp only [Option.map_some, hkeep]
      exact h.crashes hi (keep_none hkeep)
    | some a =>
      simp only [Option.map_some, hkeep]
      refine h.modify (fun _ => rfl) (fun _ => rfl) fun o' ho' hfair => ⟨hfair.connected, fun hunix => ?_⟩
      obtain rfl := Option.some.inj (hi.symm.trans ho')
      have hnone := hfair.unix hunix
      rw [hunix, hnone.2] at hkeep
      exact ⟨hnone.1, keep_unix hkeep⟩

theorem Sound.ensureSock (h : s.Sound) (hi : (s.objects i).isSome = true) {fd : Option Nat} (hfree : s.free fd = true) :
    (s.ensureSock i fd).Sound := by
  unfold Sockets.ensureSock
  split
  case isTrue => exact h
  case isFalse hvalid => exact h.newSock hi (Bool.eq_false_iff.mpr hvalid) hfree

theorem Sound.bind (h : s.Sound) (hi : (s.objects i).isSome = true) {fd : Option Nat} (hfree : s.free fd = true) (family : Family)
    (ok : Bool) (name : Option Nat) : (s.bind i family fd ok name).Sound := by
  unfold Sockets.bind
  dsimp only
  split
  · exact (h.ensureSock hi hfree).getLocalAddress i name
  · exact h.ensureSock hi hfree

theorem isSome_of_ready {family : Family} (h : s.ready i family = true) (ho : s.objects i = some o) : o.sock.isSome = true := by
  have hvalid := (Bool.and_eq_true_iff.mp h).1
  rwa [isValid, ho] at hvalid

theorem Sound.connect (h : s.Sound) (hi : (s.objects i).isSome = true) {fd : Option Nat} (hfree : s.free fd = true)
    (family : Family) (ok : Bool) (peer name : Option Nat) : (s.connect i family fd ok peer name).Sound := by
  unfold Sockets.connect
  have hsock := h.ensureSock hi hfree
  generalize s.ensureSock i fd = s' at hsock
  dsimp only
  split
  · exact hsock
  case isFalse hready =>
    split
    · exact hsock.close i
    · have hready : s'.ready i family = true := by simpa using hready
      have hconnected : (s'.modify i fun o => { o with isConnected := true }).Sound :=
        hsock.modify (fun _ => rfl) (fun _ => rfl) fun o ho hfair =>
          have hsome := isSome_of_ready hready ho
          ⟨fun _ => .inl hsome, hfair.unix⟩
      exact (hconnected.getRemoteAddress i peer).getLocalAddress i name

theorem objects_create {family : Family} {udp : Bool} (s : Sockets) (i : Nat) :
    (s.create i family udp).objects i = some ⟨family, udp, none, false, none, none⟩ :=
  Function.update_self ..

theorem Sound.create (h : s.Sound) (hi : s.objects i = none) (family : Family) (udp : Bool) : (s.create i family udp).Sound := by
  have hother : ∀ j, j ≠ i → (s.create i family udp).objects j = s.objects j := fun j hj => Function.update_of_ne hj ..
  have hsock : (s.create i family udp).sock = s.sock := by
    funext j
    by_cases hj : j = i
    · rw [sock, sock, hj, objects_create, hi]
      rfl
    · rw [sock, sock, hother j hj]
  refine ⟨?_, fun j o hj => ?_, fun hcrash => ?_⟩
  · rw [hsock]
    exact h.owns
  · by_cases heq : j = i
    · rw [heq, objects_create] at hj
      cases hj
      exact ⟨nofun, fun _ => ⟨rfl, rfl⟩⟩
    · exact h.fair j o ((hother j heq).symm.trans hj)
  · obtain ⟨j, o, hj, hunix⟩ := h.crash hcrash
    have hne : j ≠ i := fun heq => by rw [heq, hi] at hj; cases hj
    exact ⟨j, o, (hother j hne).trans hj, hunix⟩

theorem Sound.created (h : s.Sound) (hi : s.objects i = none) (family : Family) (udp : Bool) {fd : Option Nat}
    (hfree : s.free fd = true) : ((s.create i family udp).newSock i fd).Sound := by
  refine (h.create hi family udp).newSock ?_ ?_ hfree
  · rw [objects_create]
    rfl
  · rw [isValid, objects_create]
    rfl

theorem created_object {family : Family} {udp : Bool} {fd : Option Nat}
    (h : ((s.create i family udp).newSock i fd).objects i = some o) : o.udp = udp ∧ o.sock = fd := by
  cases fd with
  | none =>
    rw [newSock, objects_create] at h
    cases h
    exact ⟨rfl, rfl⟩
  | some fd =>
    rcases mem_modify h with hj | ⟨o', -, ho', rfl⟩
    · rw [newSock] at h
      have hboth := (objects_modify _ i i _).symm.trans h
      rw [if_pos rfl, objects_create] at hboth
      cases hboth
      exact ⟨rfl, rfl⟩
    · rw [objects_create] at ho'
      cases ho'
      exact ⟨rfl, rfl⟩

theorem Sound.createUDP (h : s.Sound) (hi : s.objects i = none) (family : Family) {fd : Option Nat} (hfree : s.free fd = true) :
    (s.createUDP i family fd).Sound :=
  (h.created hi family true hfree).modify (fun _ => rfl) (fun _ => rfl) fun _ ho hfair =>
    ⟨fun _ => .inr (created_object ho).1, hfair.unix⟩

theorem Sound.accept (h : s.Sound) (hj : s.objects j = none) (hfree : s.free (some fd) = true) (o : SocketObject) (usable : Bool)
    (peer name : Option Nat) : (s.accept j o fd usable peer name).Sound := by
  unfold Sockets.accept
  split
  · have hconnected := (h.created hj o.family o.udp hfree).modify (i := j) (f := fun o => { o with isConnected := true })
      (fun _ => rfl) (fun _ => rfl) fun _ ho hfair => ⟨fun _ => .inl (by rw [(created_object ho).2]; rfl), hfair.unix⟩
    exact (hconnected.getLocalAddress j name).getRemoteAddress j peer
  · have hclosed : s.isOpen fd = false := by simpa [free] using hfree
    exact ⟨h.owns.lose hclosed, h.fair, h.crash⟩

theorem crashed_close (s : Sockets) (i : Nat) : (s.close i).crashed = s.crashed := by
  unfold Sockets.close
  split <;> rfl

theorem sock_close (s : Sockets) (i : Nat) : (s.close i).sock i = none := by
  unfold Sockets.close
  split
  case h_1 hnone =>
    have hsame : (s.modify i fun o => { o with isConnected := false }).sock = s.sock := sock_modify fun _ _ => rfl
    exact (congrFun hsame i).trans hnone
  case h_2 fd hfd =>
    have hi : (s.objects i).isSome = true := by
      obtain ⟨o, ho, -⟩ := Option.bind_eq_some_iff.mp hfd
      rw [ho]
      rfl
    have hholds : (s.modify i fun o => { o with isConnected := false, sock := none }).sock = Function.update s.sock i none :=
      sock_modify_const hi fun _ => rfl
    exact (congrFun hholds i).trans (Function.update_self ..)

theorem Sound.destroy (h : s.Sound) (hcrash : s.crashed = false) (i : Nat) : (s.destroy i).Sound := by
  have hclosed := h.close i
  have hgone : (s.destroy i).objects i = none := Function.update_self ..
  have hother : ∀ j, j ≠ i → (s.destroy i).objects j = (s.close i).objects j := fun j hj => Function.update_of_ne hj ..
  have hsock : (s.destroy i).sock = (s.close i).sock := by
    funext j
    by_cases heq : j = i
    · rw [heq, sock_close, sock, hgone]
      rfl
    · rw [sock, sock, hother j heq]
  refine ⟨?_, fun j o hj => ?_, fun hcrashed => ?_⟩
  · rw [hsock]
    exact hclosed.owns
  · by_cases heq : j = i
    · rw [heq, hgone] at hj
      cases hj
    · exact hclosed.fair j o ((hother j heq).symm.trans hj)
  · exact absurd ((crashed_close s i).symm.trans hcrashed) (by rw [hcrash]; exact Bool.noConfusion)

theorem not_crashed {a : Act} (h : s.step a = some t) : s.crashed = false := by
  unfold Sockets.step at h
  split at h
  · cases h
  case isFalse hcrash => exact Bool.eq_false_iff.mpr hcrash

theorem Sound.step (h : s.Sound) {a : Act} (hs : s.step a = some t) : t.Sound := by
  have hcrash := not_crashed hs
  unfold Sockets.step at hs
  rw [hcrash, if_neg Bool.noConfusion] at hs
  cases a <;> simp only [Option.ite_none_right_eq_some, Bool.and_eq_true, Option.isNone_iff_eq_none] at hs
  case create i family udp =>
    obtain ⟨hi, hs⟩ := hs
    cases hs
    exact h.create hi family udp
  case createUDP i family fd =>
    obtain ⟨⟨hi, hfree⟩, hs⟩ := hs
    cases hs
    exact h.createUDP hi family hfree
  case bind i family fd ok name =>
    obtain ⟨⟨hi, hfree⟩, hs⟩ := hs
    cases hs
    exact h.bind hi hfree family ok name
  case connect i family fd ok peer name =>
    obtain ⟨⟨hi, hfree⟩, hs⟩ := hs
    cases hs
    exact h.connect hi hfree family ok peer name
  case accept i j fd usable peer name =>
    obtain ⟨⟨⟨-, hj⟩, hfree⟩, hs⟩ := hs
    obtain ⟨o, -, rfl⟩ := Option.map_eq_some_iff.mp hs
    exact h.accept hj hfree o usable peer name
  case getLocalAddress i name =>
    obtain ⟨-, hs⟩ := hs
    cases hs
    exact h.getLocalAddress i name
  case getRemoteAddress i peer =>
    obtain ⟨-, hs⟩ := hs
    cases hs
    exact h.getRemoteAddress i peer
  case close i =>
    obtain ⟨-, hs⟩ := hs
    cases hs
    exact h.close i
  case destroy i =>
    obtain ⟨-, hs⟩ := hs
    cases hs
    exact h.destroy hcrash i

/-! ### What stays -/

/-- An address that is cached stays. -/
structure Remembers (o o' : SocketObject) : Prop where
  localAddress : ∀ a, o.localAddress = some a → o'.localAddress = some a
  remoteAddress : ∀ a, o.remoteAddress = some a → o'.remoteAddress = some a

/-- The lost descriptors are lost still, and the socket is there with what it has cached. -/
structure Keeps (i : Nat) (s t : Sockets) : Prop where
  lost : ∀ fd ∈ s.lost, fd ∈ t.lost
  object : ∀ o, s.objects i = some o → ∃ o', t.objects i = some o' ∧ Remembers o o'

theorem Keeps.refl (i : Nat) (s : Sockets) : Keeps i s s := ⟨fun _ => id, fun o ho => ⟨o, ho, fun _ => id, fun _ => id⟩⟩

theorem Keeps.trans {u : Sockets} (h : Keeps i s t) (h' : Keeps i t u) : Keeps i s u := by
  refine ⟨fun fd hfd => h'.lost fd (h.lost fd hfd), fun o ho => ?_⟩
  obtain ⟨o', ho', hsame⟩ := h.object o ho
  obtain ⟨o'', ho'', hsame'⟩ := h'.object o' ho'
  exact ⟨o'', ho'', fun a ha => hsame'.localAddress a (hsame.localAddress a ha),
    fun a ha => hsame'.remoteAddress a (hsame.remoteAddress a ha)⟩

theorem keeps_modify {isOpen : Nat → Bool} (hf : ∀ o, s.objects j = some o → Remembers o (f o)) :
    Keeps i s { s.modify j f with isOpen } := by
  refine ⟨fun _ => id, fun o ho => ?_⟩
  by_cases h : i = j
  · subst h
    exact ⟨f o, (objects_modify s i i f).trans (by rw [if_pos rfl, ho]; rfl), hf o ho⟩
  · exact ⟨o, (objects_modify s j i f).trans (by rw [if_neg h, ho]), fun _ => id, fun _ => id⟩

theorem keeps_newSock (s : Sockets) (i j : Nat) (fd : Option Nat) : Keeps i s (s.newSock j fd) := by
  cases fd with
  | none => exact .refl i s
  | some fd => exact keeps_modify fun _ _ => ⟨fun _ => id, fun _ => id⟩

theorem keeps_close (s : Sockets) (i j : Nat) : Keeps i s (s.close j) := by
  unfold Sockets.close
  split
  · exact keeps_modify fun _ _ => ⟨fun _ => id, fun _ => id⟩
  · exact keeps_modify fun _ _ => ⟨fun _ => id, fun _ => id⟩

theorem keeps_getLocalAddress (s : Sockets) (i j : Nat) (name : Option Nat) : Keeps i s (s.getLocalAddress j name) := by
  unfold Sockets.getLocalAddress
  split
  case h_1 a hkeep =>
    refine keeps_modify fun o ho => ⟨fun b hb => ?_, fun _ => id⟩
    rw [ho, Option.map_some, hb] at hkeep
    exact (Option.some.inj (Option.some.inj hkeep)).symm
  · exact ⟨fun _ => id, fun o ho => ⟨o, ho, fun _ => id, fun _ => id⟩⟩
  · exact .refl i s

theorem keeps_getRemoteAddress (s : Sockets) (i j : Nat) (peer : Option Nat) : Keeps i s (s.getRemoteAddress j peer) := by
  unfold Sockets.getRemoteAddress
  split
  case h_1 a hkeep =>
    refine keeps_modify fun o ho => ⟨fun _ => id, fun b hb => ?_⟩
    rw [ho, Option.map_some, hb] at hkeep
    exact (Option.some.inj (Option.some.inj hkeep)).symm
  · exact ⟨fun _ => id, fun o ho => ⟨o, ho, fun _ => id, fun _ => id⟩⟩
  · exact .refl i s

theorem keeps_ensureSock (s : Sockets) (i j : Nat) (fd : Option Nat) : Keeps i s (s.ensureSock j fd) := by
  unfold Sockets.ensureSock
  split
  · exact .refl i s
  · exact keeps_newSock s i j fd

theorem keeps_connected (s : Sockets) (i j : Nat) : Keeps i s (s.modify j fun o => { o with isConnected := true }) :=
  keeps_modify fun _ _ => ⟨fun _ => id, fun _ => id⟩

theorem keeps_create (hj : s.objects j = none) (i : Nat) (family : Family) (udp : Bool) : Keeps i s (s.create j family udp) := by
  refine ⟨fun _ => id, fun o ho => ⟨o, ?_, fun _ => id, fun _ => id⟩⟩
  have hne : i ≠ j := fun heq => by rw [heq, hj] at ho; cases ho
  exact (Function.update_of_ne hne ..).trans ho

theorem keeps_step {a : Act} (hs : s.step a = some t) (ha : a ≠ .destroy i) : Keeps i s t := by
  unfold Sockets.step at hs
  rw [not_crashed hs, if_neg Bool.noConfusion] at hs
  cases a <;> simp only [Option.ite_none_right_eq_some, Bool.and_eq_true, Option.isNone_iff_eq_none] at hs
  case create j family udp =>
    obtain ⟨hj, hs⟩ := hs
    cases hs
    exact keeps_create hj i family udp
  case createUDP j family fd =>
    obtain ⟨⟨hj, -⟩, hs⟩ := hs
    cases hs
    exact ((keeps_create hj i family true).trans (keeps_newSock _ i j fd)).trans (keeps_connected _ i j)
  case bind j family fd ok name =>
    obtain ⟨-, hs⟩ := hs
    cases hs
    unfold Sockets.bind
    dsimp only
    split
    · exact (keeps_ensureSock s i j fd).trans (keeps_getLocalAddress _ i j name)
    · exact keeps_ensureSock s i j fd
  case connect j family fd ok peer name =>
    obtain ⟨-, hs⟩ := hs
    cases hs
    unfold Sockets.connect
    refine (keeps_ensureSock s i j fd).trans ?_
    dsimp only
    split
    · exact .refl i _
    · split
      · exact keeps_close _ i j
      · exact ((keeps_connected _ i j).trans (keeps_getRemoteAddress _ i j peer)).trans (keeps_getLocalAddress _ i j name)
  case accept k j fd usable peer name =>
    obtain ⟨⟨⟨-, hj⟩, -⟩, hs⟩ := hs
    obtain ⟨o, -, rfl⟩ := Option.map_eq_some_iff.mp hs
    unfold Sockets.accept
    split
    · exact (((keeps_create hj i o.family o.udp).trans (keeps_newSock _ i j (some fd))).trans (keeps_connected _ i j)).trans
        ((keeps_getLocalAddress _ i j name).trans (keeps_getRemoteAddress _ i j peer))
    · exact ⟨fun _ => List.mem_cons_of_mem _, fun o ho => ⟨o, ho, fun _ => id, fun _ => id⟩⟩
  case getLocalAddress j name =>
    obtain ⟨-, hs⟩ := hs
    cases hs
    exact keeps_getLocalAddress s i j name
  case getRemoteAddress j peer =>
    obtain ⟨-, hs⟩ := hs
    cases hs
    exact keeps_getRemoteAddress s i j peer
  case close j =>
    obtain ⟨-, hs⟩ := hs
    cases hs
    exact keeps_close s i j
  case destroy j =>
    obtain ⟨-, hs⟩ := hs
    cases hs
    have hne : i ≠ j := fun heq => ha (by rw [heq])
    refine (keeps_close s i j).trans ⟨fun _ => id, fun o ho => ⟨o, ?_, fun _ => id, fun _ => id⟩⟩
    exact (Function.update_of_ne hne ..).trans ho

theorem lost_step {a : Act} (hs : s.step a = some t) (fd : Nat) (hfd : fd ∈ s.lost) : fd ∈ t.lost := by
  obtain ⟨i, hi⟩ : ∃ i, a ≠ .destroy i := by
    by_cases hzero : a = .destroy 0
    · exact ⟨1, by rw [hzero]; exact fun heq => absurd (Act.destroy.inj heq) Nat.zero_ne_one⟩
    · exact ⟨0, hzero⟩
  exact (keeps_step hs hi).lost fd hfd

/-! ### `AF_UNIX` -/

theorem ensureSock_object (ho : s.objects i = some o) (fd : Option Nat) :
    (s.ensureSock i fd).crashed = s.crashed ∧ ∃ x, (s.ensureSock i fd).objects i = some { o with sock := x } := by
  unfold Sockets.ensureSock
  split
  · exact ⟨rfl, o.sock, ho⟩
  · cases fd with
    | none => exact ⟨rfl, o.sock, ho⟩
    | some fd => exact ⟨rfl, some fd, (objects_modify s i i _).trans (by rw [if_pos rfl, ho]; rfl)⟩

/-- A `bind` of such a socket that succeeds follows the null pointer. -/
theorem crashed_bind (h : s.Sound) (hcrash : s.crashed = false) (ho : s.objects i = some o) (hunix : o.family = .unix)
    (fd : Option Nat) (name : Nat) : (s.bind i .unix fd true (some name)).crashed = (s.ensureSock i fd).isValid i := by
  obtain ⟨hsame, x, hx⟩ := ensureSock_object ho fd
  have hnone := (h.fair i o ho).unix hunix
  have hready : (s.ensureSock i fd).ready i .unix = (s.ensureSock i fd).isValid i := by
    rw [ready, hx]
    simp [hunix]
  simp only [Sockets.bind, hready, Bool.and_true]
  cases hvalid : (s.ensureSock i fd).isValid i with
  | false =>
    rw [if_neg Bool.noConfusion]
    exact hsame.trans hcrash
  | true =>
    rw [if_pos rfl, Sockets.getLocalAddress, hx]
    simp [hunix, hnone.1, keep]

/-- For every run of any number of sockets, with whatever the kernel returns. -/
theorem sockets_own (h : Reach step (fun _ _ => True) empty s) :
    Owns s.sock s.isOpen s.lost ∧
      (∀ i o, s.objects i = some o → o.isConnected = true → o.sock.isSome = true ∨ o.udp = true) ∧
      (∀ t, Reach step (fun _ _ => True) s t → ∀ fd ∈ s.lost, t.isOpen fd = true ∧ ∀ i, t.sock i ≠ some fd) ∧
      (∀ i t, Reach step (fun _ a => a ≠ .destroy i) s t → ∀ o, s.objects i = some o →
        ∃ o', t.objects i = some o' ∧ Remembers o o') ∧
      (s.crashed = true → ∃ i o, s.objects i = some o ∧ o.family = .unix) ∧
      (s.crashed = false → ∀ i o fd name, s.objects i = some o → o.family = .unix →
        (s.bind i .unix fd true (some name)).crashed = (s.ensureSock i fd).isValid i) := by
  have hempty : Sound empty := ⟨.empty, nofun, nofun⟩
  have hsound : s.Sound := h.invariant hempty fun _ _ _ hsound _ hs => hsound.step hs
  refine ⟨hsound.owns, fun i o ho => (hsound.fair i o ho).connected, fun t ht fd hfd => ?_, fun i t ht => ?_, hsound.crash,
    fun hcrash i o fd name ho hunix => crashed_bind hsound hcrash ho hunix fd name⟩
  · obtain ⟨hsound', hlost⟩ := ht.invariant (P := fun t => t.Sound ∧ fd ∈ t.lost) ⟨hsound, hfd⟩ fun u a v hu _ hs =>
      ⟨hu.1.step hs, lost_step hs fd hu.2⟩
    exact hsound'.owns.lost fd hlost
  · exact (ht.invariant (P := Keeps i s) (.refl i s) fun u a v hu ha hs => hu.trans (keeps_step hs ha)).object

/-- A server's socket that accepts twice, of which one descriptor is lost, and a client that goes to another server but keeps the
    address of the first. -/
theorem sockets_own_two : ∃ s : Sockets, Owns s.sock s.isOpen s.lost ∧ s.lost = [5] ∧ s.sock 1 = some 6 ∧
    (s.objects 1).map (·.remoteAddress) = some (some 80) ∧
    ∀ t, Reach step (fun _ _ => True) s t → ∀ fd ∈ s.lost, t.isOpen fd = true ∧ ∀ i, t.sock i ≠ some fd := by
  have hrun : ∃ s, exec step (fun _ _ => True) empty
      [.create 0 .ipv4 false, .bind 0 .ipv4 (some 3) true (some 80), .create 1 .ipv4 false,
        .connect 1 .ipv4 (some 4) true (some 80) (some 40), .accept 0 2 5 false none none, .close 1,
        .accept 0 2 4 true (some 40) (some 80), .connect 1 .ipv4 (some 6) true (some 81) (some 41)] = some s ∧
      decide (s.lost = [5] ∧ s.sock 1 = some 6 ∧ (s.objects 1).map (·.remoteAddress) = some (some 80)) = true :=
    (Option.any_eq_true _ _).mp (by decide +kernel)
  obtain ⟨s, hrun, hends⟩ := hrun
  obtain ⟨hlost, hsock, hremote⟩ := of_decide_eq_true hends
  obtain ⟨howns, -, hstay, -⟩ := sockets_own (reach_of_exec hrun)
  exact ⟨s, howns, hlost, hsock, hremote, hstay⟩

end Sockets
end MyHttp
