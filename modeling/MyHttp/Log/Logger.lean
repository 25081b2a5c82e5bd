import MyHttp.Lib.OrderedSet
import MyHttp.Log.Formatter
import Mathlib.Data.List.Lex
import Mathlib.Logic.Function.Basic

/-! Loggers with their appenders, the definitions they are configured with, and the listener of the configuration
    (`log.cpp`). A pointer that is null is used where a function gives `none`. -/

namespace MyHttp
namespace Log

open Lib Lib.CString

inductive AppenderKind where
  /-- `FileLogAppender` with `m_filename` -/
  | file (filename : Bytes)
  /-- `StdoutLogAppender` -/
  | stdout
deriving DecidableEq, Repr

structure LogAppender where
  kind : AppenderKind
  /-- a `LogLevel::Level`, of any `int` -/
  level : Nat
  formatter : Option LogFormatter
deriving DecidableEq, Repr

namespace LogAppender

def new (kind : AppenderKind) : LogAppender := ⟨kind, 1, none⟩

def setFormatter (ap : LogAppender) (val : LogFormatter) : LogAppender := { ap with formatter := some val }

def setLevel (ap : LogAppender) (val : Nat) : LogAppender := { ap with level := val }

end LogAppender

structure Logger where
  level : Nat
  formatter : LogFormatter
  appenders : List LogAppender
deriving DecidableEq, Repr

/-- The formatter of a new logger. -/
def defaultFormatter : LogFormatter :=
  .new (ascii "%d\x7b%Y-%m-%d %H:%M:%S\x7d%T%t%T%N%T%F%T[%p]%T[%c]%T%f:%l%T%m%n")

namespace Logger

def new : Logger := ⟨1, defaultFormatter, []⟩

def setLevel (l : Logger) (val : Nat) : Logger := { l with level := val }

/-- `setFormatter` of a pattern. -/
def setFormatter (l : Logger) (val : Bytes) : Logger :=
  let newVal := LogFormatter.new val
  if newVal.isError then l else { l with formatter := newVal }

def addAppender (l : Logger) (appender : LogAppender) : Logger :=
  let appender := if appender.formatter = none then appender.setFormatter l.formatter else appender
  { l with appenders := l.appenders ++ [appender] }

def clearAppenders (l : Logger) : Logger := { l with appenders := [] }

end Logger

/-- `m_loggers`. -/
abbrev LoggerManager := Bytes → Option Logger

namespace LoggerManager

/-- The constructor: the root logger, with a `StdoutLogAppender`. -/
def new : LoggerManager := fun name =>
  if name = ascii "root" then some (Logger.new.addAppender (.new .stdout)) else none

def getLogger (m : LoggerManager) (name : Bytes) : LoggerManager × Logger :=
  match m name with
  | some logger => (m, logger)
  | none => (Function.update m name (some .new), .new)

end LoggerManager

structure LogAppenderDefine where
  /-- 1 is a file, 2 is stdout -/
  type : Nat
  level : Nat
  formatter : Bytes
  file : Bytes
deriving DecidableEq, Repr

structure LogDefine where
  name : Bytes
  level : Nat
  formatter : Bytes
  appenders : List LogAppenderDefine
deriving DecidableEq, Repr

/-! ### Definitions from the configuration -/

/-- What an appender's node has as scalars. -/
structure AppenderNode where
  type : Option Bytes
  level : Option Bytes
  file : Option Bytes
  formatter : Option Bytes
deriving DecidableEq, Repr

/-- What a logger's node has. -/
structure LoggerNode where
  name : Option Bytes
  level : Option Bytes
  formatter : Option Bytes
  appenders : List AppenderNode
deriving DecidableEq, Repr

def toupper (c : UInt8) : UInt8 := if 97 ≤ c ∧ c ≤ 122 then c - 32 else c

/-- `LogLevel::FromString`. -/
def levelFromString (str : Bytes) : Nat :=
  let temp := str.map toupper
  if temp = ascii "DEBUG" then 1
  else if temp = ascii "INFO" then 2
  else if temp = ascii "WARN" then 3
  else if temp = ascii "ERROR" then 4
  else if temp = ascii "FATAL" then 5
  else 0

/-- `LexicalCast<std::string, LogAppenderDefine>`. -/
def LogAppenderDefine.cast (node : AppenderNode) : LogAppenderDefine :=
  match node.type with
  | none => ⟨0, 0, [], []⟩
  | some type =>
    let level := levelFromString (node.level.getD [])
    if type = ascii "FileLogAppender" then
      match node.file with
      | none => ⟨1, level, [], []⟩
      | some file => ⟨1, level, node.formatter.getD [], file⟩
    else if type = ascii "StdoutLogAppender" then ⟨2, level, [], []⟩
    else ⟨0, level, [], []⟩

/-- `LexicalCast<std::string, LogDefine>`. -/
def LogDefine.cast (node : LoggerNode) : LogDefine :=
  match node.name with
  | none => ⟨[], 0, [], []⟩
  | some name =>
    ⟨name, levelFromString (node.level.getD []), node.formatter.getD [], node.appenders.map .cast⟩

/-- `LogDefine::operator<`. -/
def LogDefine.lt (x y : LogDefine) : Prop := x.name < y.name

instance : IsTrans LogDefine LogDefine.lt := ⟨fun _ _ _ => List.lt_trans⟩

instance : DecidableRel LogDefine.lt := fun x y => inferInstanceAs (Decidable (x.name < y.name))

/-- `std::set<LogDefine>`. -/
structure LogDefines where
  list : List LogDefine
  sorted : list.Pairwise LogDefine.lt
deriving DecidableEq

namespace LogDefines

def empty : LogDefines := ⟨[], .nil⟩

def insert (s : LogDefines) (i : LogDefine) : LogDefines :=
  ⟨(OrderedSet.insert LogDefine.lt s.list i).1, OrderedSet.insert_sorted s.sorted⟩

/-- `LexicalCast<std::string, std::set<LogDefine>>`. -/
def cast (nodes : List LoggerNode) : LogDefines := nodes.foldl (fun s node => s.insert (.cast node)) empty

/-- The definition at `find(i)`: the one of the same name. -/
def find (s : LogDefines) (i : LogDefine) : Option LogDefine := s.list.find? fun d => d.name = i.name

end LogDefines

/-! ### The listener -/

/-- `ap` behind the tests of the type. -/
def newAppender (a : LogAppenderDefine) : Option LogAppender :=
  if a.type = 1 then some (.new (.file a.file)) else if a.type = 2 then some (.new .stdout) else none

/-- What one of `i.appenders` adds to the logger. -/
def addDefined (l : Logger) (a : LogAppenderDefine) : Option Logger :=
  (newAppender a).map fun ap =>
    let fmt := LogFormatter.new a.formatter
    let ap := if a.formatter ≠ [] ∧ fmt.isError = false then ap.setFormatter fmt else ap
    l.addAppender (ap.setLevel a.level)

/-- What the listener does to the logger of a definition. -/
def configure (l : Logger) (i : LogDefine) : Option Logger :=
  let l := l.setLevel i.level
  let l := if i.formatter ≠ [] then l.setFormatter i.formatter else l
  i.appenders.foldlM addDefined l.clearAppenders

/-- A definition of the new set. Where it is the same as in the old set, the logger is null. -/
def applyNew (old : LogDefines) (m : LoggerManager) (i : LogDefine) : Option LoggerManager :=
  let found : Option (LoggerManager × Logger) :=
    match old.find i with
    | none => some (m.getLogger i.name)
    | some d => if i ≠ d then some (m.getLogger i.name) else none
  found.bind fun (m, logger) => (configure logger i).map fun l => Function.update m i.name (some l)

/-- A definition of the old set. -/
def removeOld (new : LogDefines) (m : LoggerManager) (i : LogDefine) : LoggerManager :=
  match new.find i with
  | none =>
    let (m, logger) := m.getLogger i.name
    Function.update m i.name (some (logger.setLevel 100).clearAppenders)
  | some _ => m

/-- The listener of `LogIniter`. -/
def listener (m : LoggerManager) (old new : LogDefines) : Option LoggerManager :=
  (new.list.foldlM (applyNew old) m).map fun m => old.list.foldl (removeOld new) m

/-- The loggers and the value of the variable; `named` are the names that were in a set so far. -/
structure LogState where
  manager : LoggerManager
  val : LogDefines
  named : List Bytes

inductive LogAct where
  /-- `setValue` of the variable, which calls the listener -/
  | setValue (v : LogDefines)
  /-- `MYHTTP_LOG_NAME` somewhere in the program -/
  | getLogger (name : Bytes)
deriving DecidableEq

namespace LogState

def init : LogState := ⟨.new, .empty, []⟩

def step (s : LogState) : LogAct → Option LogState
  | .setValue v =>
    if v = s.val then some s
    else (listener s.manager s.val v).map fun manager => ⟨manager, v, v.list.map (·.name) ++ s.named⟩
  | .getLogger name => some { s with manager := (s.manager.getLogger name).1 }

end LogState
end Log
end MyHttp
