import MyHttp.Log.Formatter

/-! The items of a `LogFormatter` and what they put out, and the scanner of `init` with its indices (`log.h`,
    `log.cpp`). -/

namespace MyHttp
namespace Log

open Lib.CString

/-- `LogEvent`, with the name of its logger. -/
structure LogEvent where
  file : Bytes
  line : Int
  elapse : Nat
  threadId : Nat
  fiberId : Nat
  time : Nat
  threadName : Bytes
  content : Bytes
  loggerName : Bytes
deriving DecidableEq, Repr

/-- `LogLevel::ToString`. -/
def levelToString : Nat → Bytes
  | 1 => ascii "DEBUG"
  | 2 => ascii "INFO"
  | 3 => ascii "WARN"
  | 4 => ascii "ERROR"
  | 5 => ascii "FATAL"
  | _ => ascii "UNKNOW"

inductive FormatItem where
  | message
  | level
  | elapse
  | name
  | threadId
  | newLine
  | filename
  | line
  | dateTime (format : Bytes)
  | tab
  | fiberId
  | threadName
  | string (s : Bytes)
deriving DecidableEq, Repr

/-- `operator<<` of a number. -/
def number (n : Int) : Bytes := ascii (toString n)

namespace FormatItem

/-- `DateTimeFormatItem`. -/
def makeDateTime (format : Bytes) : FormatItem :=
  .dateTime (if format = [] then ascii "%Y-%m-%d %H:%M:%S" else format)

/-- What `s_format_items` makes of a name and a format. -/
def make (str fmt : Bytes) : Option FormatItem :=
  if str = ascii "m" then some .message
  else if str = ascii "p" then some .level
  else if str = ascii "r" then some .elapse
  else if str = ascii "c" then some .name
  else if str = ascii "t" then some .threadId
  else if str = ascii "n" then some .newLine
  else if str = ascii "f" then some .filename
  else if str = ascii "l" then some .line
  else if str = ascii "d" then some (makeDateTime fmt)
  else if str = ascii "T" then some .tab
  else if str = ascii "F" then some .fiberId
  else if str = ascii "N" then some .threadName
  else none

/-- The item of an entry of `vec`. -/
def ofPart (part : FormatPart) : FormatItem :=
  if part.type = 0 then .string part.str
  else (make part.str part.fmt).getD (.string (ascii "<<error_format %" ++ part.str ++ ascii ">>"))

/-- What an item puts out. `strftime` is what the C library makes of a time and a format. -/
def format (strftime : Nat → Bytes → Bytes) (level : Nat) (event : LogEvent) : FormatItem → Bytes
  | .message => event.content
  | .level => levelToString level
  | .elapse => number event.elapse
  | .name => event.loggerName
  | .threadId => number event.threadId
  | .newLine => [10]
  | .filename => event.file
  | .line => number event.line
  | .dateTime fmt => strftime event.time fmt
  | .tab => [9]
  | .fiberId => number event.fiberId
  | .threadName => event.threadName
  | .string s => s

end FormatItem

namespace LogFormatter

/-- `m_items`. -/
def items (f : LogFormatter) : List FormatItem := (initLoop [] 0 f.pattern).1.map .ofPart

def format (f : LogFormatter) (strftime : Nat → Bytes → Bytes) (level : Nat) (event : LogEvent) : Bytes :=
  f.items.flatMap (·.format strftime level event)

end LogFormatter

/-! ### The scanner -/

/-- `m_pattern.substr(pos, len)`. -/
def substr (s : Bytes) (pos len : Nat) : Bytes := (s.drop pos).take len

/-- The variables of the inner loop of `init`. -/
structure Scan where
  n : Nat
  fmtStatus : Nat
  fmtBegin : Nat
  str : Bytes
  fmt : Bytes
deriving DecidableEq, Repr

/-- The inner loop, in so many rounds at most. -/
def scanDirective (pattern : Bytes) (i : Nat) : (rounds : Nat) → Scan → Option Scan
  | 0, _ => none
  | rounds + 1, s =>
    match pattern[s.n]? with
    | none => some s
    | some c =>
      if s.fmtStatus = 0 ∧ (!isalpha c ∧ c ≠ 123 ∧ c ≠ 125) then
        some { s with str := substr pattern (i + 1) (s.n - i - 1) }
      else if s.fmtStatus = 0 ∧ c = 123 then
        scanDirective pattern i rounds
          { s with str := substr pattern (i + 1) (s.n - i - 1), fmtStatus := 1, fmtBegin := s.n, n := s.n + 1 }
      else if s.fmtStatus = 1 ∧ c = 125 then
        some { s with fmt := substr pattern (s.fmtBegin + 1) (s.n - s.fmtBegin - 1), fmtStatus := 0, n := s.n + 1 }
      else
        let str := if s.n + 1 = pattern.length ∧ s.str = [] then pattern.drop (i + 1) else s.str
        scanDirective pattern i rounds { s with n := s.n + 1, str }

/-- The outer loop of `init`, from index `i` on, with `nstr`, `vec` and `m_error`. -/
def scanPattern (pattern : Bytes) :
    (rounds i : Nat) → (nstr : Bytes) → List FormatPart → Bool → Option (List FormatPart × Bool)
  | 0, _, _, _, _ => none
  | rounds + 1, i, nstr, vec, error =>
    match pattern[i]? with
    | none => some (vec ++ literal nstr, error)
    | some c =>
      if c ≠ 37 then scanPattern pattern rounds (i + 1) (nstr ++ [c]) vec error
      else if pattern[i + 1]? = some 37 then scanPattern pattern rounds (i + 1) (nstr ++ [37]) vec error
      else
        (scanDirective pattern i (pattern.length + 1) ⟨i + 1, 0, 0, [], []⟩).bind fun s =>
          if s.fmtStatus = 0 then
            -- `i = n - 1`, and `++i`
            scanPattern pattern rounds s.n [] (vec ++ literal nstr ++ [⟨s.str, s.fmt, 1⟩]) error
          else scanPattern pattern rounds (i + 1) nstr (vec ++ [⟨ascii "<<pattern_error>>", s.fmt, 0⟩]) true

end Log
end MyHttp
