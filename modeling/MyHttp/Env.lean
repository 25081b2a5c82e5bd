import MyHttp.Config.ConfDir
import Mathlib.Logic.Function.Basic

/-! The arguments of the program (`env.cpp`) and what `Application::init` makes of them (`application.cpp`). -/

namespace MyHttp

open Lib.CString

structure Env where
  /-- `m_args` -/
  args : Bytes → Option Bytes
  helps : List (Bytes × Bytes)
  program : Bytes
  exe : Bytes
  cwd : Bytes

namespace Env

def new : Env := ⟨fun _ => none, [], [], [], []⟩

def add (s : Env) (key val : Bytes) : Env := { s with args := Function.update s.args key (some val) }

def has (s : Env) (key : Bytes) : Bool := (s.args key).isSome

def del (s : Env) (key : Bytes) : Env := { s with args := Function.update s.args key none }

def get (s : Env) (key default_value : Bytes) : Bytes := (s.args key).getD default_value

def removeHelp (s : Env) (key : Bytes) : Env := { s with helps := s.helps.filter fun it => it.1 ≠ key }

def addHelp (s : Env) (key desc : Bytes) : Env :=
  { s.removeHelp key with helps := (s.removeHelp key).helps ++ [(key, desc)] }

/-- The directory of an executable, with the slash behind it. -/
def directory (exe : Bytes) : Bytes :=
  if exe.contains 47 then (exe.reverse.dropWhile (· ≠ 47)).reverse else exe ++ ascii "/"

/-- A key that has no value so far gets the empty one. -/
def flush (s : Env) : Option Bytes → Env
  | some key => s.add key []
  | none => s

/-- The loop over `argv`, with `now_key`. -/
def parse (s : Env) (now_key : Option Bytes) : List Bytes → Env × Bool
  | [] => (s.flush now_key, true)
  | arg :: argv =>
    if arg.head? = some 45 then
      if arg.length > 1 then (s.flush now_key).parse (some arg.tail) argv else (s, false)
    else
      match now_key with
      | some key => (s.add key arg).parse none argv
      | none => (s, false)

/-- `init`, with what `readlink` finds for the executable and the arguments behind `argv[0]`. -/
def init (s : Env) (link : Option Bytes) (program : Bytes) (argv : List Bytes) : Env × Bool :=
  match link with
  | none => (s, false)
  | some exe => { s with exe, cwd := directory exe, program }.parse none argv

end Env

/-! ### The application -/

/-- What is seen of `Application::init` and `Application::run`. -/
inductive AppEvent where
  | printHelp
  /-- `Config::LoadFromConfDir` of an absolute path -/
  | loadFromConfDir (path : Bytes)
  | mkdir (path : Bytes)
deriving DecidableEq, Repr

/-- What `Application::init` meets outside. -/
structure AppWorld where
  /-- `readlink` of the executable -/
  link : Option Bytes
  /-- `server.work_path` and `server.pid_file` before the configuration is loaded -/
  workPath : Bytes
  pidFile : Bytes
  /-- `server.work_path` with the configuration loaded from a directory -/
  loaded : Bytes → Bytes
  /-- `FSUtil::IsRunningPidfile` -/
  isRunningPidfile : Bytes → Bool
  /-- `FSUtil::Mkdir` -/
  mkdir : Bytes → Bool

namespace Application

/-- The arguments that ask for a terminal or for a daemon. -/
def runType (env : Env) : Nat := if env.has (ascii "d") then 2 else if env.has (ascii "s") then 1 else 0

def addHelps (env : Env) : Env :=
  (((env.addHelp (ascii "s") (ascii "start with the terminal")).addHelp (ascii "d") (ascii "run as daemon")).addHelp
    (ascii "c") (ascii "conf path default: ./conf")).addHelp (ascii "p") (ascii "print help")

/-- `Application::init`. -/
def init (world : AppWorld) (env : Env) (program : Bytes) (argv : List Bytes) : Env × List AppEvent × Bool :=
  match (addHelps env).init world.link program argv with
  | (env, false) => (env, [.printHelp], false)
  | (env, true) =>
    if env.has (ascii "p") then (env, [.printHelp], false)
    else if runType env = 0 then (env, [.printHelp], false)
    else if world.isRunningPidfile (world.workPath ++ ascii "/" ++ world.pidFile) then (env, [], false)
    else
      let conf_path := getAbsolutePath env.cwd (env.get (ascii "c") (ascii "conf"))
      let work_path := world.loaded conf_path
      (env, [.loadFromConfDir conf_path, .mkdir work_path], world.mkdir work_path)

/-- `Application::run` starts a daemon. -/
def isDaemon (env : Env) : Bool := env.has (ascii "d")

end Application
end MyHttp
