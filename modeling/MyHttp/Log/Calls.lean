import Mathlib.Data.List.Sort
import MyHttp.Lib.Locks

/-! The functions of `Logger`, `LogAppender` and `LoggerManager` (`log.cpp`) as threads call them, with the locks that they take. A
    formatter is a number, and the objects are told apart by numbers; logger 0 is the root logger. -/

namespace MyHttp
namespace Log

open Lib Lib.Locks

/-- The mutexes of the manager and of the objects. -/
inductive LogLock where
  | manager
  | logger (i : Nat)
  | appender (j : Nat)
deriving DecidableEq, Repr

/-- A text in an appender: which logger wrote it, in which of its turns. -/
structure Line where
  logger : Nat
  turn : Nat
  level : Nat
  formatter : Nat
deriving DecidableEq, Repr

structure SharedAppender where
  /-- a `FileLogAppender` -/
  isFile : Bool
  level : Nat
  formatter : Option Nat
  lastTime : Nat
  output : List Line
deriving DecidableEq, Repr

structure SharedLogger where
  level : Nat
  formatter : Nat
  appenders : List Nat
  /-- whether `m_root` is set -/
  hasRoot : Bool
  /-- how often its appenders, or the root logger, have been called -/
  turn : Nat
deriving DecidableEq, Repr

structure Logs where
  loggers : Nat → SharedLogger
  appenders : Nat → SharedAppender
  /-- `m_loggers`, in the order of the names -/
  named : List (Nat × Nat)
  count : Nat
  now : Nat
  /-- a formatter that is null was used -/
  crashed : Bool

/-- What is done between two steps on locks. -/
inductive LogStep where
  /-- the test of the level in `Logger::log` -/
  | log (i level : Nat)
  /-- the loop over the appenders, or the call of the root logger -/
  | dispatch (i level : Nat)
  /-- `log` of an appender, before its lock -/
  | append (j i turn level : Nat)
  | stamp (j now : Nat)
  | write (j i turn level : Nat)
  | setLevel (i val : Nat)
  | setFormatter (i val : Nat)
  /-- `getFormatter` of the appender, in `addAppender` -/
  | probe (i j : Nat)
  /-- `setFormatter` of the appender, where that was null -/
  | adopt (i j : Nat)
  | push (i j : Nat)
  | remove (i j : Nat)
  | clear (i : Nat)
  | setAppenderLevel (j val : Nat)
  | setAppenderFormatter (j val : Nat)
  | find (name : Nat)
  | dumpAll
  | dump (i : Nat)
deriving DecidableEq, Repr

abbrev LogProgram := List (Instr LogLock LogStep)

namespace Logs

def setLogger (s : Logs) (i : Nat) (f : SharedLogger → SharedLogger) : Logs :=
  { s with loggers := fun k => if k = i then f (s.loggers k) else s.loggers k }

def setAppender (s : Logs) (j : Nat) (f : SharedAppender → SharedAppender) : Logs :=
  { s with appenders := fun k => if k = j then f (s.appenders k) else s.appenders k }

/-- A new logger. -/
def construct (s : Logs) (hasRoot : Bool) : Logs :=
  { s.setLogger s.count fun l => ⟨1, 0, [], hasRoot, l.turn⟩ with count := s.count + 1 }

/-- A section under one lock. -/
def locked (l : LogLock) (a : LogStep) : LogProgram := [.lock l, .act a, .unlock l]

/-- `reopen` of a file, in a second in which it was not done yet. -/
def freshen (s : Logs) (j : Nat) : LogProgram :=
  if (s.appenders j).isFile = true ∧ s.now ≠ (s.appenders j).lastTime then
    [.lock (.appender j), .unlock (.appender j), .act (.stamp j s.now)]
  else []

def run (s : Logs) : LogStep → Logs × LogProgram
  | .log i level => (s, if (s.loggers i).level ≤ level then locked (.logger i) (.dispatch i level) else [])
  | .dispatch i level =>
    (s.setLogger i fun l => { l with turn := l.turn + 1 },
      if (s.loggers i).appenders ≠ [] then
        (s.loggers i).appenders.map fun j => .act (.append j i ((s.loggers i).turn + 1) level)
      else if (s.loggers i).hasRoot then [.act (.log 0 level)]
      else [])
  | .append j i turn level =>
    (s, if (s.appenders j).level ≤ level then s.freshen j ++ locked (.appender j) (.write j i turn level) else [])
  | .stamp j now => (s.setAppender j fun ap => { ap with lastTime := now }, [])
  | .write j i turn level =>
    match (s.appenders j).formatter with
    | some f => (s.setAppender j fun ap => { ap with output := ap.output ++ [⟨i, turn, level, f⟩] }, [])
    | none => ({ s with crashed := true }, [])
  | .setLevel i val => (s.setLogger i fun l => { l with level := val }, [])
  | .setFormatter i val => (s.setLogger i fun l => { l with formatter := val }, [])
  | .probe i j =>
    (s, .unlock (.appender j) ::
      if (s.appenders j).formatter = none then [.lock (.appender j), .act (.adopt i j)] else [.act (.push i j)])
  | .adopt i j =>
    (s.setAppender j fun ap => { ap with formatter := some (s.loggers i).formatter }, [.unlock (.appender j), .act (.push i j)])
  | .push i j => (s.setLogger i fun l => { l with appenders := l.appenders ++ [j] }, [])
  | .remove i j => (s.setLogger i fun l => { l with appenders := l.appenders.erase j }, [])
  | .clear i => (s.setLogger i fun l => { l with appenders := [] }, [])
  | .setAppenderLevel j val => (s.setAppender j fun ap => { ap with level := val }, [])
  | .setAppenderFormatter j val => (s.setAppender j fun ap => { ap with formatter := some val }, [])
  | .find name =>
    if (s.named.lookup name).isSome then (s, [])
    else
      ({ s.construct true with named := s.named.orderedInsert (fun x y => x.1 ≤ y.1) (name, s.count) }, [])
  | .dumpAll => (s, s.named.flatMap fun x => locked (.logger x.2) (.dump x.2))
  | .dump i => (s, (s.loggers i).appenders.flatMap fun j => [.lock (.appender j), .unlock (.appender j)])

end Logs

/-- The calls from outside. -/
inductive LogCall where
  | log (i level : Nat)
  | setLevel (i val : Nat)
  | setFormatter (i val : Nat)
  | getFormatter (i : Nat)
  | addAppender (i j : Nat)
  | delAppender (i j : Nat)
  | clearAppenders (i : Nat)
  | setAppenderLevel (j val : Nat)
  | setAppenderFormatter (j val : Nat)
  | getAppenderFormatter (j : Nat)
  | getLogger (name : Nat)
  | toYamlString
  | loggerToYamlString (i : Nat)
  | appenderToYamlString (j : Nat)
deriving DecidableEq, Repr

/-- The logger that a call is for. -/
def LogCall.logger : LogCall → Option Nat
  | .log i _ | .setLevel i _ | .setFormatter i _ | .getFormatter i | .addAppender i _ | .delAppender i _ | .clearAppenders i
  | .loggerToYamlString i => some i
  | _ => none

def LogCall.program : LogCall → LogProgram
  | .log i level => [.act (.log i level)]
  | .setLevel i val => [.act (.setLevel i val)]
  | .setFormatter i val => Logs.locked (.logger i) (.setFormatter i val)
  | .getFormatter i => [.lock (.logger i), .unlock (.logger i)]
  | .addAppender i j => [.lock (.logger i), .lock (.appender j), .act (.probe i j), .unlock (.logger i)]
  | .delAppender i j => Logs.locked (.logger i) (.remove i j)
  | .clearAppenders i => Logs.locked (.logger i) (.clear i)
  | .setAppenderLevel j val => [.act (.setAppenderLevel j val)]
  | .setAppenderFormatter j val => Logs.locked (.appender j) (.setAppenderFormatter j val)
  | .getAppenderFormatter j | .appenderToYamlString j => [.lock (.appender j), .unlock (.appender j)]
  | .getLogger name => Logs.locked .manager (.find name)
  | .toYamlString => Logs.locked .manager .dumpAll
  | .loggerToYamlString i => Logs.locked (.logger i) (.dump i)

/-- The threads of the program, by numbers. -/
abbrev Logging := State Nat LogLock LogStep Logs

namespace Logging

inductive Act where
  /-- a thread makes a call -/
  | call (k : Nat) (c : LogCall)
  /-- a logger is made without the manager -/
  | construct
  /-- a thread goes on -/
  | run (k : Nat)
  | time (now : Nat)
deriving DecidableEq, Repr

def step (s : Logging) : Act → Option Logging
  | .call k c => if c.logger.all (· < s.shared.count) then call s k c.program else none
  | .construct => some { s with shared := s.shared.construct false }
  | .run k => Locks.step Logs.run s k
  | .time now => some { s with shared := { s.shared with now := now } }

/-- The manager with its root logger, which has the appender 0 (a `StdoutLogAppender`); other appenders have no formatter yet. -/
def init (isFile : Nat → Bool) : Logging where
  shared :=
    { loggers := fun i => if i = 0 then ⟨1, 0, [0], false, 0⟩ else ⟨1, 0, [], false, 0⟩
      appenders := fun j => ⟨isFile j, 1, if j = 0 then some 0 else none, 0, []⟩
      named := [(0, 0)]
      count := 1
      now := 0
      crashed := false }
  locked := fun _ => false
  threads := fun _ => ⟨[], []⟩

end Logging
end Log
end MyHttp
