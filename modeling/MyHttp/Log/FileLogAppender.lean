import MyHttp.Lib.CString

/-! `FileLogAppender` (`log.cpp`), with its `std::ofstream` and with the file that its name leads to, which others may remove
    and replace. -/

namespace MyHttp
namespace Log

open Lib.CString

/-- A `std::ofstream`: the file that is open, with the bytes that have still to be written to it. -/
structure Ofstream where
  file : Option Nat
  good : Bool
  buffer : Bytes
deriving DecidableEq, Repr

/-- What the kernel does during a call. -/
structure Kernel where
  /-- how many bytes `close` gets written -/
  closed : Nat
  opens : Bool
  /-- how many bytes are written of those in the buffer and of the new ones -/
  moved : Nat
  writes : Bool
deriving DecidableEq, Repr

/-- A text that a stream was given: when, for which file. -/
structure Entry where
  time : Nat
  file : Nat
  text : Bytes
deriving DecidableEq, Repr

/-- The appender and its files, which are numbered as they come up. -/
structure FileLogAppender where
  level : Nat
  lastTime : Nat
  stream : Ofstream
  /-- the file that `m_filename` leads to -/
  named : Option Nat
  next : Nat
  /-- what was written, every piece at the end of its file -/
  disk : List (Nat × Bytes)
  /-- the files that were opened, with the time -/
  opened : List (Nat × Nat)
  journal : List Entry
  /-- the texts for which `error` was printed -/
  errors : List Bytes
  /-- whether bytes of a buffer were given up -/
  lost : Bool
deriving DecidableEq, Repr

namespace FileLogAppender

inductive Act where
  /-- a call of `log`; the text is what `m_formatter` makes of the event -/
  | log (now level : Nat) (text : Bytes) (k : Kernel)
  | setLevel (val : Nat)
  /-- the file is removed, or another one put in its place -/
  | link (file : Option Nat)
deriving DecidableEq, Repr

/-- `close` of the stream. -/
def close (s : FileLogAppender) (k : Kernel) : FileLogAppender :=
  match s.stream.file with
  | none => { s with stream := { s.stream with good := false } }
  | some f =>
    { s with
      stream := ⟨none, decide (s.stream.buffer.length ≤ k.closed), []⟩
      disk := s.disk ++ [(f, s.stream.buffer.take k.closed)]
      lost := s.lost || decide (k.closed < s.stream.buffer.length) }

/-- `open` of the stream, which fails where a file is open. -/
def openFile (s : FileLogAppender) (now : Nat) (k : Kernel) : FileLogAppender :=
  if s.stream.file = none ∧ k.opens = true then
    let f := s.named.getD s.next
    { s with
      stream := ⟨some f, true, []⟩
      named := some f
      next := max s.next (f + 1)
      opened := s.opened ++ [(now, f)] }
  else { s with stream := { s.stream with good := false } }

/-- `reopen`; `now` is the time that the caller goes by. -/
def reopen (s : FileLogAppender) (now : Nat) (k : Kernel) : FileLogAppender :=
  (if s.stream.good then s.close k else s).openFile now k

/-- `<<` of a text. -/
def write (s : FileLogAppender) (text : Bytes) (k : Kernel) : FileLogAppender :=
  if s.stream.good then
    match s.stream.file with
    | none => { s with stream := { s.stream with good := false }, errors := s.errors ++ [text] }
    | some f =>
      let bytes := s.stream.buffer ++ text
      let s := { s with disk := s.disk ++ [(f, bytes.take k.moved)], journal := s.journal ++ [Entry.mk s.lastTime f text] }
      if k.writes then { s with stream := ⟨some f, true, bytes.drop k.moved⟩ }
      else { s with stream := ⟨some f, false, []⟩, errors := s.errors ++ [text], lost := true }
  else { s with errors := s.errors ++ [text] }

/-- The file is opened anew for every second. -/
def freshen (s : FileLogAppender) (now : Nat) (k : Kernel) : FileLogAppender :=
  if now ≠ s.lastTime then { s.reopen now k with lastTime := now } else s

def log (s : FileLogAppender) (now level : Nat) (text : Bytes) (k : Kernel) : FileLogAppender :=
  if s.level ≤ level then (s.freshen now k).write text k else s

def step (s : FileLogAppender) : Act → FileLogAppender
  | .log now level text k => s.log now level text k
  | .setLevel val => { s with level := val }
  | .link file => { s with named := file, next := max s.next (file.elim 0 (· + 1)) }

/-- Before the constructor. -/
def unopened (named : Option Nat) : FileLogAppender where
  level := 1
  lastTime := 0
  stream := ⟨none, true, []⟩
  named := named
  next := named.elim 0 (· + 1)
  disk := []
  opened := []
  journal := []
  errors := []
  lost := false

/-- The constructor. -/
def new (named : Option Nat) (k : Kernel) : FileLogAppender := (unopened named).reopen 0 k

end FileLogAppender
end Log
end MyHttp
