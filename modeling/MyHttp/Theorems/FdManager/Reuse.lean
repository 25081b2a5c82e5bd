import MyHttp.FdManager
import MyHttp.Lib.Run

/-! A descriptor that is opened has a context of its own as long as no descriptor with a context was closed and the
    numbers stay below the size of the table. -/

namespace MyHttp

open Lib.Run Lib.Machine

namespace Flags

variable {f g : Flags}

theorem nonblock_eq (f : Flags) : f.nonblock = f.getLsbD 11 := by
  have htwo : oNonblock = BitVec.twoPow 32 11 := by decide
  unfold nonblock
  rw [htwo, BitVec.and_twoPow]
  cases f.getLsbD 11
  · rfl
  · rfl

@[simp] theorem nonblock_or : Flags.nonblock (f ||| g) = (f.nonblock || g.nonblock) := by
  rw [nonblock_eq, nonblock_eq, nonblock_eq, BitVec.getLsbD_or]

@[simp] theorem nonblock_and : Flags.nonblock (f &&& g) = (f.nonblock && g.nonblock) := by
  rw [nonblock_eq, nonblock_eq, nonblock_eq, BitVec.getLsbD_and]

@[simp] theorem nonblock_oNonblock : oNonblock.nonblock = true := by decide

@[simp] theorem nonblock_settable : settable.nonblock = true := by decide

@[simp] theorem nonblock_not_oNonblock : Flags.nonblock (~~~oNonblock) = false := by decide

@[simp] theorem nonblock_not_settable : Flags.nonblock (~~~settable) = false := by decide

end Flags

/-- `F_SETFL` sets the flag as its argument has it. -/
@[simp] theorem File.nonblock_setfl {file : File} {arg : Flags} : (file.setfl arg).flags.nonblock = arg.nonblock := by
  simp [File.setfl]

/-! ### A new context -/

/-- The context of a socket that has just been opened: no timeouts, blocking for its user, non-blocking in the
    kernel. -/
structure FdCtx.New (ctx : FdCtx) (file : File) : Prop where
  recvTimeout : ctx.recvTimeout = maxUint64
  sendTimeout : ctx.sendTimeout = maxUint64
  userNonblock : ctx.userNonblock = false
  nonblock : ctx.isSocket → file.flags.nonblock

namespace FdManager

variable {s t : FdManager} {fd fd' : Nat} {flags : Flags} {act : FdAct} {files : Nat → Option File}

/-- The manager's context for the descriptor is one that was allocated after `s`, and it is new. -/
def Fresh (s t : FdManager) (fd : Nat) : Prop :=
  ∃ p ctx file, t.get fd = some p ∧ s.objects.length ≤ p ∧ t.objects[p]? = some ctx ∧ t.files fd = some file ∧
    ctx.New file

theorem init_new (fd : Nat) (h : files fd = some ⟨true, flags⟩) :
    ∃ file, (FdCtx.init fd files).2 fd = some file ∧ (FdCtx.init fd files).1.New file := by
  unfold FdCtx.init
  rw [h]
  dsimp only
  rw [if_pos rfl]
  by_cases hn : flags.nonblock
  · rw [if_pos hn]
    exact ⟨⟨true, flags⟩, h, rfl, rfl, rfl, fun _ => hn⟩
  · rw [if_neg hn]
    exact ⟨_, Function.update_self .., rfl, rfl, rfl, fun _ => by simp⟩

theorem init_files (h : fd' ≠ fd) : (FdCtx.init fd files).2 fd' = files fd' := by
  unfold FdCtx.init
  split
  · rfl
  · dsimp only
    split
    · split
      · rfl
      · exact Function.update_of_ne h ..
    · rfl

theorem getCreate_none (h : s.get fd = none) : s.getCreate fd =
    { datas := s.datas.set fd (some s.objects.length)
      objects := s.objects ++ [(FdCtx.init fd s.files).1]
      files := (FdCtx.init fd s.files).2
      overrun := s.overrun || s.datas.length ≤ fd } := by
  unfold getCreate
  rw [h]

theorem get_set {p : Nat} (h : s.datas = t.datas.set fd (some p)) (hfd : fd < t.datas.length) : s.get fd = some p := by
  unfold get
  rw [h, List.getElem?_set_self hfd]
  rfl

theorem get_set_of_ne {p : Option Nat} (h : s.datas = t.datas.set fd p) (hne : fd' ≠ fd) : s.get fd' = t.get fd' := by
  unfold get
  rw [h, List.getElem?_set_ne (Ne.symm hne)]

theorem get_of_datas (h : t.datas = s.datas) : t.get fd = s.get fd := by
  unfold get
  rw [h]

theorem opened_eq (h : s.get fd = none) : s.opened fd flags =
    { datas := s.datas.set fd (some s.objects.length)
      objects := s.objects ++ [(FdCtx.init fd (Function.update s.files fd (some ⟨true, flags⟩))).1]
      files := (FdCtx.init fd (Function.update s.files fd (some ⟨true, flags⟩))).2
      overrun := s.overrun || s.datas.length ≤ fd } :=
  getCreate_none (s := { s with files := Function.update s.files fd (some ⟨true, flags⟩) }) h

/-- What opening a number without a context gives. -/
theorem opened_fresh_iff (h : s.get fd = none) : Fresh s (s.opened fd flags) fd ↔ fd < s.datas.length := by
  rw [opened_eq h]
  constructor
  · rintro ⟨p, -, -, hp, -⟩
    by_contra hlen
    have hout : (s.datas.set fd (some s.objects.length)).length ≤ fd := by
      rw [List.length_set]
      exact Nat.le_of_not_lt hlen
    unfold get at hp
    rw [List.getElem?_eq_none hout] at hp
    cases hp
  · intro hfd
    obtain ⟨file, hfile, hnew⟩ := init_new fd (Function.update_self fd (some ⟨true, flags⟩) s.files)
    exact ⟨s.objects.length, _, file, get_set rfl hfd, Nat.le_refl _, List.getElem?_concat_length, hfile, hnew⟩

/-! ### What the calls leave alone -/

/-- The table is kept, and so are the numbers that are open. -/
structure Keeps (s t : FdManager) : Prop where
  datas : t.datas = s.datas
  files : ∀ fd, t.files fd = none ↔ s.files fd = none

theorem Keeps.trans {u : FdManager} (h₁ : Keeps s t) (h₂ : Keeps t u) : Keeps s u :=
  ⟨h₂.datas.trans h₁.datas, fun fd => (h₂.files fd).trans (h₁.files fd)⟩

theorem keeps_modify (s : FdManager) (fd : Nat) (f : FdCtx → FdCtx) : Keeps s (s.modify fd f) := by
  unfold modify
  split
  · exact ⟨rfl, fun _ => Iff.rfl⟩
  · exact ⟨rfl, fun _ => Iff.rfl⟩

theorem keeps_onFile (s : FdManager) (fd : Nat) (f : File → File) : Keeps s (s.onFile fd f) where
  datas := rfl
  files fd' := by
    unfold onFile
    dsimp only
    by_cases hfd : fd' = fd
    · rw [hfd, Function.update_self, Option.map_eq_none_iff]
    · rw [Function.update_of_ne hfd]

theorem keeps_setfl (s : FdManager) (fd : Nat) (arg : Flags) : Keeps s (s.setfl fd arg) := by
  unfold setfl
  split
  · exact keeps_onFile ..
  · split
    · exact (keeps_modify ..).trans (keeps_onFile ..)
    · exact keeps_onFile ..

theorem keeps_fionbio (s : FdManager) (fd : Nat) (v : BitVec 32) : Keeps s (s.fionbio fd v) := by
  unfold fionbio
  split
  · exact keeps_onFile ..
  · split
    · exact (keeps_modify ..).trans (keeps_onFile ..)
    · exact keeps_onFile ..

theorem close_get : (s.close fd).get fd' = s.get fd' := by
  unfold close del
  split <;> rfl

theorem close_files : (s.close fd).files = Function.update s.files fd none := by
  unfold close del
  split <;> rfl

/-! ### Runs -/

/-- The number that the kernel hands out in a call. -/
def Returns : FdAct → Nat → Flags → Prop
  | .socket ret, fd, flags | .accept ret, fd, flags => ret = some (fd, flags)
  | _, _, _ => False

/-- A call gives a new number a context of its own, and a closed number has none. -/
def Right (s : FdManager) (act : FdAct) (t : FdManager) : Prop :=
  (∀ fd flags, Returns act fd flags → Fresh s t fd) ∧ ∀ fd, act = .close fd → t.get fd = none

/-- The number that is opened is a place of the table, and what is closed has no context. -/
def Unused (s : FdManager) : FdAct → Prop
  | .socket (some (fd, _)) | .accept (some (fd, _)) => fd < 64
  | .close fd => s.get fd = none
  | _ => True

instance (s : FdManager) (act : FdAct) : Decidable (Unused s act) := by
  induction act using FdAct.casesOn
  case socket ret => induction ret using Option.casesOn <;> unfold Unused <;> infer_instance
  case accept ret => induction ret using Option.casesOn <;> unfold Unused <;> infer_instance
  all_goals unfold Unused; infer_instance

/-- Only open numbers have a context. -/
structure Owned (s : FdManager) : Prop where
  size : s.datas.length = 64
  closed : ∀ fd, s.files fd = none → s.get fd = none

theorem owned_init : (init files).Owned where
  size := List.length_replicate
  closed fd _ := by
    unfold init get
    by_cases hfd : fd < 64
    · rw [List.getElem?_replicate_of_lt hfd]
      rfl
    · rw [List.getElem?_eq_none (by rw [List.length_replicate]; omega)]
      rfl

theorem Owned.keep (h : s.Owned) (hk : Keeps s t) : t.Owned where
  size := by rw [hk.datas, h.size]
  closed fd hfd := (get_of_datas hk.datas).trans (h.closed fd ((hk.files fd).mp hfd))

theorem Owned.opened (h : s.Owned) (hfiles : s.files fd = none) : (s.opened fd flags).Owned := by
  rw [opened_eq (h.closed fd hfiles)]
  refine ⟨(List.length_set ..).trans h.size, fun fd' hfd' => ?_⟩
  dsimp only at hfd'
  by_cases hne : fd' = fd
  · obtain ⟨file, hfile, -⟩ := init_new fd (Function.update_self fd (some ⟨true, flags⟩) s.files)
    rw [hne, hfile] at hfd'
    cases hfd'
  · rw [init_files hne, Function.update_of_ne hne] at hfd'
    exact (get_set_of_ne rfl hne).trans (h.closed fd' hfd')

theorem Owned.close (h : s.Owned) (hget : s.get fd = none) : (s.close fd).Owned where
  size := by
    unfold FdManager.close del
    split
    · exact h.size
    · exact h.size
  closed fd' hfd' := by
    rw [close_get]
    by_cases hne : fd' = fd
    · rw [hne, hget]
    · rw [close_files, Function.update_of_ne hne] at hfd'
      exact h.closed fd' hfd'

theorem step_opened (hs : s.step act = some t) (hret : Returns act fd flags) :
    s.files fd = none ∧ t = s.opened fd flags := by
  cases act with
  | socket ret | accept ret =>
    obtain rfl : ret = some (fd, flags) := hret
    unfold step at hs
    dsimp only at hs
    split at hs
    · exact ⟨Option.isNone_iff_eq_none.mp ‹_›, (Option.some.inj hs).symm⟩
    · cases hs
  | setsockopt | setfl | fionbio | close => exact hret.elim

theorem Owned.step (h : s.Owned) (hu : Unused s act) (hs : s.step act = some t) : t.Owned := by
  cases act with
  | socket ret | accept ret =>
    rcases ret with _ | ⟨fd, flags⟩
    · obtain rfl := Option.some.inj hs
      exact h
    · obtain ⟨hfiles, rfl⟩ := step_opened hs rfl
      exact h.opened hfiles
  | setsockopt fd type sec usec =>
    obtain rfl := Option.some.inj hs
    exact h.keep (keeps_modify ..)
  | setfl fd arg =>
    obtain rfl := Option.some.inj hs
    exact h.keep (keeps_setfl ..)
  | fionbio fd v =>
    obtain rfl := Option.some.inj hs
    exact h.keep (keeps_fionbio ..)
  | close fd =>
    obtain rfl := Option.some.inj hs
    exact h.close hu

/-- In a step from a state where only open numbers have a context, the context is right exactly under the condition. -/
theorem Owned.right_iff (h : s.Owned) (hs : s.step act = some t) : Right s act t ↔ Unused s act := by
  have hopened : ∀ fd flags, Returns act fd flags → (Fresh s t fd ↔ fd < 64) := by
    intro fd flags hret
    obtain ⟨hfiles, rfl⟩ := step_opened hs hret
    rw [opened_fresh_iff (h.closed fd hfiles), h.size]
  unfold Right
  cases act with
  | socket ret | accept ret =>
    rcases ret with _ | ⟨fd, flags⟩
    · simp [Returns, Unused]
    · refine Iff.trans ?_ (hopened fd flags rfl)
      constructor
      · exact fun hright => hright.1 fd flags rfl
      · intro hfresh
        refine ⟨fun fd' flags' hret => ?_, fun _ hc => nomatch hc⟩
        obtain ⟨rfl, rfl⟩ := Prod.mk.inj (Option.some.inj hret)
        exact hfresh
  | close fd =>
    obtain rfl := Option.some.inj hs
    simp [Returns, Unused, close_get]
  | setsockopt | setfl | fionbio => simp [Returns, Unused]

/-- In every run in which no descriptor with a context is closed and the numbers stay below the size of the table,
    numbers that are not open have no context; and the next call is right exactly when it meets this condition, too. -/
theorem fresh_after_open (h : Reach step Unused (init files) s) :
    (∀ fd, s.files fd = none → s.get fd = none) ∧
    ∀ act t, s.step act = some t → (Right s act t ↔ Unused s act) := by
  have howned : s.Owned := h.invariant owned_init fun _ _ _ ho hu hs => ho.step hu hs
  exact ⟨howned.closed, fun act t hs => howned.right_iff hs⟩

/-- Two sockets, one of them accepted, with a timeout and flags set in between. -/
theorem fresh_after_open_two :
    let s := (exec step Unused (init fun _ => none) [.socket (some (3, 2)), .setsockopt 3 .recv 1 500000,
      .setfl 3 0x800]).get (by decide +kernel)
    let t := (s.step (.accept (some (4, 2)))).get (by decide +kernel)
    Right s (.accept (some (4, 2))) t := by
  intro s t
  have hreach : Reach step Unused (init fun _ => none) s := reach_of_exec (Option.some_get _).symm
  exact ((fresh_after_open hreach).2 _ t (Option.some_get _).symm).mpr (by decide)

/-- The kernel returns its sockets in blocking mode. -/
def Blocking : FdAct → Prop
  | .socket (some (_, flags)) | .accept (some (_, flags)) => flags.nonblock = false
  | _ => True

instance (act : FdAct) : Decidable (Blocking act) := by
  induction act using FdAct.casesOn
  case socket ret => induction ret using Option.casesOn <;> unfold Blocking <;> infer_instance
  case accept ret => induction ret using Option.casesOn <;> unfold Blocking <;> infer_instance
  all_goals unfold Blocking; infer_instance

/-- A number that comes back from the kernel still has the context of the socket it was closed for. -/
theorem stale_after_reuse : ¬∀ files s, Reach step (fun _ act => Blocking act) (init files) s →
    ∀ act t, Blocking act → s.step act = some t → Right s act t := by
  intro h
  let s := (exec step (fun _ act => Blocking act) (init fun _ => none) [.socket (some (3, 2)),
    .setsockopt 3 .recv 1 500000, .close 3]).get (by decide +kernel)
  let t := (s.step (.socket (some (3, 2)))).get (by decide +kernel)
  have hright := h _ s (reach_of_exec (Option.some_get _).symm) (.socket (some (3, 2))) t (by decide)
    (Option.some_get _).symm
  obtain ⟨p, -, -, hget, hnew, -⟩ := hright.1 3 2 rfl
  have hold : t.get 3 = some 0 := by decide +kernel
  have hlen : s.objects.length = 1 := by decide +kernel
  obtain rfl := Option.some.inj (hold.symm.trans hget)
  omega

end FdManager
end MyHttp
