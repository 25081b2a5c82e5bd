import MyHttp.Lib.Machine
import Mathlib.Logic.Function.Basic

/-! The descriptors behind the hooked calls (`fd_manager.cpp`, `hook.cpp`): the contexts of the `FdManager`, the
    kernel's own flags, and the calls that change both. -/

namespace MyHttp

open Lib.Machine

/-- The file status flags. -/
abbrev Flags := BitVec 32

/-- `O_NONBLOCK`. -/
def oNonblock : Flags := 0x800

/-- What `F_SETFL` can change: `O_APPEND`, `O_ASYNC`, `O_DIRECT`, `O_NOATIME` and `O_NONBLOCK`. -/
def settable : Flags := 0x46c00

def Flags.nonblock (f : Flags) : Bool := f &&& oNonblock ≠ 0

/-- An open file of the kernel. -/
structure File where
  socket : Bool
  flags : Flags
deriving DecidableEq, Repr

namespace File

/-- `fcntl_f` with `F_SETFL`. -/
def setfl (file : File) (arg : Flags) : File :=
  { file with flags := (file.flags &&& ~~~settable) ||| (arg &&& settable) }

/-- `ioctl_f` with `FIONBIO`. -/
def fionbio (file : File) (v : BitVec 32) : File :=
  { file with flags := if v ≠ 0 then file.flags ||| oNonblock else file.flags &&& ~~~oNonblock }

end File

inductive TimeoutType where
  /-- `SO_RCVTIMEO` -/
  | recv
  /-- `SO_SNDTIMEO` -/
  | send
deriving DecidableEq, Repr

structure FdCtx where
  isInit : Bool
  isSocket : Bool
  sysNonblock : Bool
  userNonblock : Bool
  isClosed : Bool
  fd : Nat
  recvTimeout : Nat
  sendTimeout : Nat
deriving DecidableEq, Repr

namespace FdCtx

/-- The constructor with its `init`, which makes a socket non-blocking in the kernel. -/
def init (fd : Nat) (files : Nat → Option File) : FdCtx × (Nat → Option File) :=
  let ctx : FdCtx := ⟨false, false, false, false, false, fd, maxUint64, maxUint64⟩
  match files fd with
  | none => (ctx, files)
  | some file =>
    let ctx := { ctx with isInit := true, isSocket := file.socket }
    if ctx.isSocket then
      let flags := file.flags
      let files := if flags.nonblock then files else
        Function.update files fd (some (file.setfl (flags ||| oNonblock)))
      ({ ctx with sysNonblock := true }, files)
    else (ctx, files)

def setTimeout (ctx : FdCtx) (type : TimeoutType) (v : Nat) : FdCtx :=
  match type with
  | .recv => { ctx with recvTimeout := v }
  | .send => { ctx with sendTimeout := v }

def getTimeout (ctx : FdCtx) : TimeoutType → Nat
  | .recv => ctx.recvTimeout
  | .send => ctx.sendTimeout

/-- `!ctx || ctx->isClose() || !ctx->isSocket()`, the other way round. -/
def virtual (ctx : FdCtx) : Bool := !ctx.isClosed && ctx.isSocket

end FdCtx

structure FdManager where
  /-- `m_datas`: pointers, which are indices of `objects` -/
  datas : List (Option Nat)
  /-- the contexts that were allocated -/
  objects : List FdCtx
  /-- the open descriptors of the kernel -/
  files : Nat → Option File
  /-- `m_datas` has been written behind its end -/
  overrun : Bool

/-- How `do_io` goes about its call. -/
inductive Entry where
  /-- the system call, and nothing else -/
  | direct
  /-- `EBADF` -/
  | closed
  /-- the loop around the system call, with the timeout -/
  | hooked (timeout : Nat)
deriving DecidableEq, Repr

inductive FdAct where
  /-- with what the kernel returns: a descriptor and its flags, or `-1` -/
  | socket (ret : Option (Nat × Flags))
  | accept (ret : Option (Nat × Flags))
  /-- `SOL_SOCKET`, with the `timeval` -/
  | setsockopt (fd : Nat) (type : TimeoutType) (sec usec : Int)
  /-- `fcntl` with `F_SETFL` -/
  | setfl (fd : Nat) (arg : Flags)
  /-- `ioctl` with `FIONBIO` -/
  | fionbio (fd : Nat) (v : BitVec 32)
  | close (fd : Nat)
deriving DecidableEq, Repr

namespace FdManager

def init (files : Nat → Option File) : FdManager := ⟨List.replicate 64 none, [], files, false⟩

/-- `get(fd)`. -/
def get (s : FdManager) (fd : Nat) : Option Nat := s.datas[fd]?.join

def getCtx (s : FdManager) (fd : Nat) : Option FdCtx := (s.get fd).bind (s.objects[·]?)

/-- `get(fd, true)`: the table is written without a look at its size. -/
def getCreate (s : FdManager) (fd : Nat) : FdManager :=
  match s.get fd with
  | some _ => s
  | none =>
    let (ctx, files) := FdCtx.init fd s.files
    { datas := s.datas.set fd (some s.objects.length)
      objects := s.objects ++ [ctx]
      files
      overrun := s.overrun || s.datas.length ≤ fd }

/-- `del(fd)`, which changes nothing. -/
def del (s : FdManager) (_fd : Nat) : FdManager := s

def modify (s : FdManager) (fd : Nat) (f : FdCtx → FdCtx) : FdManager :=
  match s.get fd with
  | some p => { s with objects := s.objects.modify p f }
  | none => s

/-- A system call on the flags of an open descriptor. -/
def onFile (s : FdManager) (fd : Nat) (f : File → File) : FdManager :=
  { s with files := Function.update s.files fd ((s.files fd).map f) }

/-- The kernel opens a socket, and the hook asks for its context. -/
def opened (s : FdManager) (fd : Nat) (flags : Flags) : FdManager :=
  { s with files := Function.update s.files fd (some ⟨true, flags⟩) }.getCreate fd

def setsockopt (s : FdManager) (fd : Nat) (type : TimeoutType) (sec usec : Int) : FdManager :=
  s.modify fd (·.setTimeout type ((sec * 1000 + usec.tdiv 1000) % 2 ^ 64).toNat)

def setfl (s : FdManager) (fd : Nat) (arg : Flags) : FdManager :=
  match s.getCtx fd with
  | none => s.onFile fd (·.setfl arg)
  | some ctx =>
    if ctx.virtual then
      let s := s.modify fd fun ctx => { ctx with userNonblock := arg.nonblock }
      s.onFile fd (·.setfl (if ctx.sysNonblock then arg ||| oNonblock else arg &&& ~~~oNonblock))
    else s.onFile fd (·.setfl arg)

/-- `fcntl` with `F_GETFL`; `-1` when the descriptor is not open. -/
def getfl (s : FdManager) (fd : Nat) : Flags :=
  let arg := (s.files fd).elim (-1) (·.flags)
  match s.getCtx fd with
  | none => arg
  | some ctx =>
    if ctx.virtual then
      if ctx.userNonblock then arg ||| oNonblock else arg &&& ~~~oNonblock
    else arg

/-- The user's argument goes on to the kernel. -/
def fionbio (s : FdManager) (fd : Nat) (v : BitVec 32) : FdManager :=
  match s.getCtx fd with
  | none => s.onFile fd (·.fionbio v)
  | some ctx =>
    if ctx.virtual then
      (s.modify fd fun ctx => { ctx with userNonblock := v ≠ 0 }).onFile fd (·.fionbio v)
    else s.onFile fd (·.fionbio v)

/-- The waiters of the descriptor are not part of this model. -/
def close (s : FdManager) (fd : Nat) : FdManager :=
  let s := if (s.get fd).isSome then s.del fd else s
  { s with files := Function.update s.files fd none }

/-- The branches of `do_io` in front of its loop. -/
def doIo (s : FdManager) (hookEnable : Bool) (fd : Nat) (type : TimeoutType) : Entry :=
  if !hookEnable then .direct
  else
    match s.getCtx fd with
    | none => .direct
    | some ctx =>
      if ctx.isClosed then .closed
      else if !ctx.isSocket || ctx.userNonblock then .direct
      else .hooked (ctx.getTimeout type)

/-- A system call on the descriptor can wait in the kernel. -/
def blocks (s : FdManager) (fd : Nat) : Bool := (s.files fd).any fun file => !file.flags.nonblock

/-- The kernel hands out numbers that are not open. -/
def step (s : FdManager) : FdAct → Option FdManager
  | .socket none | .accept none => some s
  | .socket (some (fd, flags)) | .accept (some (fd, flags)) =>
    if (s.files fd).isNone then some (s.opened fd flags) else none
  | .setsockopt fd type sec usec => some (s.setsockopt fd type sec usec)
  | .setfl fd arg => some (s.setfl fd arg)
  | .fionbio fd v => some (s.fionbio fd v)
  | .close fd => some (s.close fd)

end FdManager
end MyHttp
