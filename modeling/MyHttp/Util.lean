import MyHttp.Lib.CString
import MyHttp.Lib.FileTree

/-! `FSUtil::Mkdir` (`util.cpp`), which cuts its copy of the path at every slash in turn. -/

namespace MyHttp
namespace FSUtil

open Lib.CString Lib.FileTree

/-- The string that a buffer begins with. -/
def cStr (buf : Bytes) : Bytes := buf.takeWhile (· ≠ 0)

/-- `strchr` for the bytes of a buffer from some place on; `none` is a read behind its end, and `some none` a null pointer. -/
def strchr (c : UInt8) : Nat → Bytes → Option (Option Nat)
  | _, [] => none
  | i, b :: buf => if b = c then some (some i) else if b = 0 then some none else strchr c (i + 1) buf

/-- `__mkdir`; `none` is a failure. -/
def mkdirIfMissing (fs : FileSystem) (cwd : Nat) (dirname : Bytes) : Option FileSystem :=
  if fs.access cwd dirname then some fs else fs.mkdir cwd dirname

/-- The loop over the slashes, which is left at a null pointer or with the slash whose directory cannot be made. -/
def loop (cwd : Nat) : Nat → FileSystem → Bytes → Option Nat → Option (FileSystem × Bytes × Option Nat)
  | 0, _, _, _ => none
  | _ + 1, fs, path, none => some (fs, path, none)
  | fuel + 1, fs, path, some ptr =>
    match mkdirIfMissing fs cwd (cStr (path.set ptr 0)) with
    | none => some (fs, path.set ptr 0, some ptr)
    | some fs => (strchr 47 (ptr + 1) (((path.set ptr 0).set ptr 47).drop (ptr + 1))).bind (loop cwd fuel fs ((path.set ptr 0).set ptr 47))

/-- `Mkdir`; `none` is a read behind the end of the copy. -/
def mkdir (fs : FileSystem) (cwd : Nat) (dirname : Bytes) : Option (FileSystem × Bool) :=
  if fs.lstat cwd (cStr dirname) then some (fs, true)
  else
    let path := cStr dirname ++ [0]
    (strchr 47 1 (path.drop 1)).bind fun ptr =>
      (loop cwd path.length fs path ptr).map fun (fs, path, ptr) =>
        if ptr.isSome then (fs, false)
        else
          match mkdirIfMissing fs cwd (cStr path) with
          | none => (fs, false)
          | some fs => (fs, true)

end FSUtil
end MyHttp
