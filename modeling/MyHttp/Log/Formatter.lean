import MyHttp.Lib.CString

/-! `LogFormatter` (`log.cpp`): how a pattern is taken apart, and whether it is in error. -/

namespace MyHttp
namespace Log

open Lib.CString

/-- An entry of `vec` in `LogFormatter::init`: a string, the format in braces, and whether it is a directive. -/
structure FormatPart where
  str : Bytes
  fmt : Bytes
  type : Nat
deriving DecidableEq, Repr

def isalpha (c : UInt8) : Bool := (65 ≤ c && c ≤ 90) || (97 ≤ c && c ≤ 122)

/-- The keys of `s_format_items`. -/
def formatItems : List Bytes := ["m", "p", "r", "c", "t", "n", "f", "l", "d", "T", "F", "N"].map ascii

/-- The text behind a percent sign, read as a directive: its name, its format, and how many bytes they are. The name
    goes on over letters and closing braces; `none` is a brace that is not closed. -/
def directive (s : Bytes) : Option (Bytes × Bytes × Nat) :=
  let name := s.takeWhile fun c => isalpha c || c = 125
  match s.dropWhile fun c => isalpha c || c = 125 with
  | 123 :: rest =>
    let fmt := rest.takeWhile (· ≠ 125)
    if fmt.length < rest.length then some (name, fmt, name.length + fmt.length + 2) else none
  | _ => some (name, [], name.length)

/-- The literal text so far, when there is some. -/
def literal (nstr : Bytes) : List FormatPart := if nstr = [] then [] else [⟨nstr, [], 0⟩]

/-- The loop of `LogFormatter::init` over the pattern, with the bytes of a directive still to be passed over. It gives
    the entries of `vec`, and whether a brace was not closed. -/
def initLoop (nstr : Bytes) (skip : Nat) : Bytes → List FormatPart × Bool
  | [] => (literal nstr, false)
  | c :: rest =>
    if skip ≠ 0 then initLoop nstr (skip - 1) rest
    else if c ≠ 37 then initLoop (nstr ++ [c]) 0 rest
    -- the second percent sign is looked at again
    else if rest.head? = some 37 then initLoop (nstr ++ [37]) 0 rest
    else
      match directive rest with
      | some (str, fmt, n) =>
        let (vec, error) := initLoop [] n rest
        (literal nstr ++ ⟨str, fmt, 1⟩ :: vec, error)
      | none =>
        let (vec, _) := initLoop nstr 0 rest
        (⟨ascii "<<pattern_error>>", [], 0⟩ :: vec, true)

structure LogFormatter where
  pattern : Bytes
  error : Bool
deriving DecidableEq, Repr

/-- The constructor. -/
def LogFormatter.new (pattern : Bytes) : LogFormatter :=
  let (vec, error) := initLoop [] 0 pattern
  ⟨pattern, error || vec.any fun x => x.type ≠ 0 && x.str ∉ formatItems⟩

def LogFormatter.isError (f : LogFormatter) : Bool := f.error

example : (LogFormatter.new (ascii "%d\x7b%Y-%m\x7d%T[%p]%n")).isError = false ∧ (LogFormatter.new (ascii "%d\x7b%Y")).isError = true ∧
    (LogFormatter.new (ascii "%q")).isError = true := by decide

end Log
end MyHttp
