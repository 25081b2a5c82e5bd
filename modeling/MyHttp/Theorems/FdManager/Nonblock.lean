import MyHttp.Theorems.FdManager.Reuse
import Mathlib.Data.List.Induction

/-! The user's view of a socket and the kernel's flag under any sequence of `fcntl(F_SETFL)` and `ioctl(FIONBIO)`: the
    user's view is always right, and the kernel stays non-blocking as long as no `FIONBIO` asks for blocking mode. -/

namespace MyHttp
namespace FdManager

variable {s t : FdManager} {fd p : Nat} {arg flags : Flags} {v : BitVec 32} {file : File} {ctx : FdCtx}

/-- A call on the flags of one descriptor. -/
inductive Control where
  | setfl (arg : Flags)
  | fionbio (v : BitVec 32)
deriving DecidableEq, Repr

def control (fd : Nat) (s : FdManager) : Control → FdManager
  | .setfl arg => s.setfl fd arg
  | .fionbio v => s.fionbio fd v

/-- What the user has asked for last. -/
def asked (cs : List Control) : Bool :=
  cs.foldl (fun _ c => match c with
    | .setfl arg => arg.nonblock
    | .fionbio v => v ≠ 0) false

/-- The argument of the last `F_SETFL`, or the flags of the start. -/
def lastFlags (start : Flags) (cs : List Control) : Flags :=
  cs.foldl (fun last c => match c with
    | .setfl arg => arg
    | .fionbio _ => last) start

/-- The flags besides `O_NONBLOCK` that `F_SETFL` can change. -/
def others : Flags := settable &&& ~~~oNonblock

/-- The blocking mode is the user's in what is reported, and non-blocking in the kernel, so that the system calls of
    `do_io` return at once. -/
structure Virtualised (s : FdManager) (fd : Nat) (start : Flags) (cs : List Control) : Prop where
  kernel : ∃ file, s.files fd = some file ∧ file.flags.nonblock
  reported : (s.getfl fd).nonblock = asked cs
  others : s.getfl fd &&& others = lastFlags start cs &&& others
  doIo : ∀ type timeout, s.doIo true fd type = .hooked timeout → s.blocks fd = false

/-! ### The state behind it -/

/-- The context and the file of a socket: the user's flag is what was asked for, and the kernel has the other flags
    of the last `F_SETFL`. -/
structure Socket (s : FdManager) (fd : Nat) (user : Bool) (last : Flags) (nonblock : Bool) : Prop where
  ctx : ∃ ctx, s.getCtx fd = some ctx ∧ ctx.isClosed = false ∧ ctx.isSocket = true ∧ ctx.sysNonblock = true ∧
    ctx.userNonblock = user
  file : ∃ file, s.files fd = some file ∧ file.flags.nonblock = nonblock ∧ file.flags &&& others = last &&& others

theorem others_or (f : Flags) : (f ||| oNonblock) &&& others = f &&& others := by
  have h : oNonblock &&& others = 0#32 := by decide
  rw [BitVec.and_or_distrib_right, h, BitVec.or_zero]

theorem others_not (f : Flags) : f &&& ~~~oNonblock &&& others = f &&& others := by
  have h : ~~~oNonblock &&& others = others := by decide
  rw [BitVec.and_assoc, h]

theorem others_setfl : (file.setfl arg).flags &&& others = arg &&& others := by
  have h₁ : ~~~settable &&& others = 0#32 := by decide
  have h₂ : settable &&& others = others := by decide
  unfold File.setfl
  rw [BitVec.and_or_distrib_right, BitVec.and_assoc, BitVec.and_assoc, h₁, h₂, BitVec.and_zero, BitVec.zero_or]

theorem others_fionbio : (file.fionbio v).flags &&& others = file.flags &&& others := by
  unfold File.fionbio
  dsimp only
  split
  · exact others_or _
  · exact others_not _

theorem nonblock_fionbio : (file.fionbio v).flags.nonblock = decide (v ≠ 0) := by
  unfold File.fionbio
  by_cases hv : v = 0
  · simp [hv]
  · rw [if_pos hv, decide_eq_true hv]
    simp

theorem getCtx_modify {f : FdCtx → FdCtx} (h : s.getCtx fd = some ctx) : (s.modify fd f).getCtx fd = some (f ctx) := by
  obtain ⟨p, hp, hctx⟩ := Option.bind_eq_some_iff.mp h
  have hget : (s.modify fd f).get fd = some p := (get_of_datas (keeps_modify ..).datas).trans hp
  unfold getCtx
  rw [hget, Option.bind_some]
  unfold modify
  rw [hp]
  dsimp only
  rw [List.getElem?_modify_eq, hctx]
  rfl

theorem getCtx_onFile {f : File → File} : (s.onFile fd f).getCtx fd = s.getCtx fd := rfl

theorem files_onFile {f : File → File} (h : s.files fd = some file) : (s.onFile fd f).files fd = some (f file) := by
  unfold onFile
  dsimp only
  rw [Function.update_self, h]
  rfl

theorem files_modify {f : FdCtx → FdCtx} : (s.modify fd f).files = s.files := by
  unfold modify
  split <;> rfl

section
variable {user nonblock : Bool} {last : Flags}

theorem Socket.setfl (h : Socket s fd user last nonblock) (arg : Flags) :
    Socket (s.setfl fd arg) fd arg.nonblock arg true := by
  obtain ⟨⟨ctx, hctx, hclosed, hsocket, hsys, -⟩, file, hfile, -, -⟩ := h
  have heq : s.setfl fd arg = (s.modify fd fun ctx => { ctx with userNonblock := arg.nonblock }).onFile fd
      (·.setfl (arg ||| oNonblock)) := by
    unfold FdManager.setfl
    rw [hctx]
    dsimp only
    rw [if_pos (by simp [FdCtx.virtual, hclosed, hsocket]), hsys, if_pos rfl]
  rw [heq]
  refine ⟨⟨_, getCtx_onFile.trans (getCtx_modify hctx), hclosed, hsocket, hsys, rfl⟩,
    _, files_onFile (files_modify ▸ hfile), ?_, ?_⟩
  · simp
  · rw [others_setfl, others_or]

theorem Socket.fionbio (h : Socket s fd user last nonblock) (v : BitVec 32) :
    Socket (s.fionbio fd v) fd (v ≠ 0) last (v ≠ 0) := by
  obtain ⟨⟨ctx, hctx, hclosed, hsocket, hsys, -⟩, file, hfile, -, hothers⟩ := h
  have heq : s.fionbio fd v = (s.modify fd fun ctx => { ctx with userNonblock := v ≠ 0 }).onFile fd (·.fionbio v) := by
    unfold FdManager.fionbio
    rw [hctx]
    dsimp only
    rw [if_pos (by simp [FdCtx.virtual, hclosed, hsocket])]
  rw [heq]
  refine ⟨⟨_, getCtx_onFile.trans (getCtx_modify hctx), hclosed, hsocket, hsys, rfl⟩,
    _, files_onFile (files_modify ▸ hfile), nonblock_fionbio, ?_⟩
  rw [others_fionbio, hothers]

/-- The blocking mode is virtualised exactly when the kernel's flag is set. -/
theorem Socket.virtualised {start : Flags} {cs : List Control}
    (h : Socket s fd (asked cs) (lastFlags start cs) nonblock) : Virtualised s fd start cs ↔ nonblock = true := by
  obtain ⟨⟨ctx, hctx, hclosed, hsocket, -, huser⟩, file, hfile, hnonblock, hothers⟩ := h
  have hgetfl : s.getfl fd = if asked cs then file.flags ||| oNonblock else file.flags &&& ~~~oNonblock := by
    unfold getfl
    rw [hctx, hfile]
    dsimp only
    rw [if_pos (by simp [FdCtx.virtual, hclosed, hsocket]), huser]
    rfl
  constructor
  · rintro ⟨⟨file', hfile', hkernel⟩, -, -, -⟩
    obtain rfl := Option.some.inj (hfile.symm.trans hfile')
    exact hnonblock.symm.trans hkernel
  · intro hset
    refine ⟨⟨file, hfile, hnonblock.trans hset⟩, ?_, ?_, fun _ _ _ => ?_⟩
    · rw [hgetfl]
      cases asked cs <;> simp
    · rw [hgetfl]
      split
      · rw [others_or, hothers]
      · rw [others_not, hothers]
    · unfold blocks
      rw [hfile]
      simp [hnonblock, hset]

/-- What `init` makes of a socket. -/
theorem socket_init (hget : s.get fd = none) (hfd : fd < s.datas.length) (hfile : s.files fd = some file)
    (hsocket : file.socket = true) : Socket (s.getCreate fd) fd false file.flags true := by
  obtain ⟨socket, flags⟩ := file
  obtain rfl : socket = true := hsocket
  rw [getCreate_none hget]
  have hinit : ∃ f, (FdCtx.init fd s.files).2 fd = some f ∧ f.flags.nonblock = true ∧
      f.flags &&& others = flags &&& others ∧ (FdCtx.init fd s.files).1 =
        ⟨true, true, true, false, false, fd, Lib.Machine.maxUint64, Lib.Machine.maxUint64⟩ := by
    unfold FdCtx.init
    rw [hfile]
    dsimp only
    rw [if_pos rfl]
    by_cases hn : flags.nonblock
    · rw [if_pos hn]
      exact ⟨_, hfile, hn, rfl, rfl⟩
    · rw [if_neg hn]
      exact ⟨_, Function.update_self .., by simp, others_setfl.trans (others_or _), rfl⟩
  obtain ⟨f, hf, hn, ho, hctx⟩ := hinit
  refine ⟨⟨(FdCtx.init fd s.files).1, ?_, ?_⟩, f, hf, hn, ho⟩
  · unfold getCtx
    rw [get_set rfl hfd]
    exact List.getElem?_concat_length
  · rw [hctx]
    exact ⟨rfl, rfl, rfl, rfl⟩

end

/-! ### Sequences of calls -/

/-- The kernel's flag after a sequence: that of its last call, for an `F_SETFL` always sets it. -/
def kernelSet : List Control → Bool := fun cs =>
  cs.foldl (fun _ c => match c with
    | .setfl _ => true
    | .fionbio v => v ≠ 0) true

theorem Socket.run {start : Flags} (h : Socket s fd false start true) (cs : List Control) :
    Socket (cs.foldl (control fd) s) fd (asked cs) (lastFlags start cs) (kernelSet cs) := by
  induction cs using List.reverseRecOn with
  | nil => exact h
  | append_singleton cs c ih =>
    unfold asked lastFlags kernelSet at *
    simp only [List.foldl_append, List.foldl_cons, List.foldl_nil]
    cases c with
    | setfl arg => exact ih.setfl arg
    | fionbio v => exact ih.fionbio v

/-- For a socket whose context `init` has made, every sequence of calls leaves the mode virtualised at each of its
    steps exactly when it has no `FIONBIO` with zero. -/
theorem virtualised_iff (hget : s.get fd = none) (hfd : fd < s.datas.length) (hfile : s.files fd = some file)
    (hsocket : file.socket = true) (cs : List Control) :
    (∀ ds, ds <+: cs → Virtualised (ds.foldl (control fd) (s.getCreate fd)) fd file.flags ds) ↔
      ∀ c ∈ cs, c ≠ .fionbio 0 := by
  have hrun := (socket_init hget hfd hfile hsocket).run
  constructor
  · rintro h c hc rfl
    obtain ⟨ds, es, rfl⟩ := List.append_of_mem hc
    have hset := (hrun _).virtualised.mp (h (ds ++ [.fionbio 0]) ⟨es, by simp⟩)
    unfold kernelSet at hset
    rw [List.foldl_append] at hset
    cases hset
  · intro h ds hds
    refine (hrun ds).virtualised.mpr ?_
    rcases List.eq_nil_or_concat ds with rfl | ⟨es, c, rfl⟩
    · rfl
    · have hc := h c (hds.subset (by simp))
      unfold kernelSet
      rw [List.concat_eq_append, List.foldl_append]
      cases c with
      | setfl arg => rfl
      | fionbio v =>
        refine decide_eq_true ?_
        rintro rfl
        exact hc rfl

theorem virtualised_iff_setfl :
    Virtualised ([Control.setfl 0x400, .fionbio 1, .setfl 0].foldl (control 3)
      ((init fun _ => some ⟨true, 2⟩).getCreate 3)) 3 2 [.setfl 0x400, .fionbio 1, .setfl 0] := by
  have hfd : 3 < (init fun _ => some ⟨true, 2⟩).datas.length := by decide
  exact (virtualised_iff rfl hfd rfl rfl [.setfl 0x400, .fionbio 1, .setfl 0]).mpr (by decide) _ List.prefix_rfl

/-- `FIONBIO` with zero leaves a socket that is blocking in the kernel, and `do_io` calls it. -/
theorem fionbio_blocks : ¬∀ (s : FdManager) (fd : Nat) (file : File), s.get fd = none → fd < s.datas.length →
    s.files fd = some file → file.socket = true → ∀ cs ds, ds <+: cs →
    Virtualised (ds.foldl (control fd) (s.getCreate fd)) fd file.flags ds := by
  intro h
  have hv := h (init fun _ => some ⟨true, 2⟩) 3 ⟨true, 2⟩ rfl (by decide) rfl rfl [.fionbio 0] [.fionbio 0]
    List.prefix_rfl
  have hdoIo := hv.doIo .recv Lib.Machine.maxUint64 (by decide +kernel)
  revert hdoIo
  decide +kernel

end FdManager
end MyHttp
