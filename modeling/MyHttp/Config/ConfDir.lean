import MyHttp.Config.LoadFromYaml
import Mathlib.Data.List.Basic

/-! `Config::LoadFromConfDir` (`config.cpp`), with `FSUtil::ListAllFile` (`util.cpp`) and `Env::getAbsolutePath`
    (`env.cpp`). -/

namespace MyHttp

open Lib.CString

/-- An entry of a directory by its `d_type`. A directory that cannot be opened is one without entries. -/
inductive Dirent where
  | reg (name : Bytes)
  | dir (name : Bytes) (entries : List Dirent)
  | other (name : Bytes)

namespace FSUtil

/-- Whether a file is listed. -/
def hasSubfix (subfix filename : Bytes) : Bool :=
  if subfix = [] then true
  else if filename.length < subfix.length then false
  else filename.drop (filename.length - subfix.length) = subfix

/-- The path of an entry. -/
def join (path name : Bytes) : Bytes := path ++ ascii "/" ++ name

mutual

/-- What `ListAllFile` lists for one entry. -/
def listEntry (path subfix : Bytes) : Dirent → List Bytes
  | .dir name entries =>
    if name = ascii "." ∨ name = ascii ".." then [] else listAllFile (join path name) subfix entries
  | .reg filename => if hasSubfix subfix filename then [join path filename] else []
  | .other _ => []

/-- `ListAllFile`, in the order of `readdir`. -/
def listAllFile (path subfix : Bytes) : List Dirent → List Bytes
  | [] => []
  | dp :: entries => listEntry path subfix dp ++ listAllFile path subfix entries

end

end FSUtil

/-- `getAbsolutePath`, with `m_cwd`. -/
def getAbsolutePath (cwd path : Bytes) : Bytes :=
  if path = [] then ascii "/" else if path.head? = some 47 then path else cwd ++ path

namespace Config

/-- What is found by one call. -/
structure ConfDir where
  path : Bytes
  /-- `opendir` and `readdir` for the absolute path -/
  entries : Bytes → List Dirent
  /-- `st_mtime` after `lstat` -/
  mtime : Bytes → Int64
  /-- `YAML::LoadFile`; `none` is an exception -/
  loadFile : Bytes → Option Yaml

/-- The files that are looked at. -/
def ConfDir.files (cwd : Bytes) (dir : ConfDir) : List Bytes :=
  FSUtil.listAllFile (getAbsolutePath cwd dir.path) (ascii ".yml") (dir.entries (getAbsolutePath cwd dir.path))

/-- What is done with a file. -/
inductive FileLoad where
  | unmodified
  | ok
  | failed
deriving DecidableEq, Repr

/-- A file that a call has come to, with its `st_mtime`. -/
structure Visit where
  file : Bytes
  mtime : Int64
  load : FileLoad
deriving DecidableEq, Repr

variable {V : Type}

/-- `s_file2modifytime` and the variables. -/
structure Confs (V : Type) where
  file2modifytime : Bytes → Option UInt64
  datas : Bytes → Option V

/-- `s_file2modifytime[i]`, which inserts a zero for a new file. -/
def Confs.modifytime (s : Confs V) (i : Bytes) : UInt64 × Confs V :=
  match s.file2modifytime i with
  | some time => (time, s)
  | none => (0, { s with file2modifytime := Function.update s.file2modifytime i (some 0) })

/-- The body of the loop. -/
def loadConfFile (emit : Yaml → Bytes) (fromString : V → Bytes → V) (dir : ConfDir) (s : Confs V) (i : Bytes) :
    Visit × Confs V :=
  let (time, s) := s.modifytime i
  if time = (dir.mtime i).toUInt64 then (⟨i, dir.mtime i, .unmodified⟩, s)
  else
    match dir.loadFile i with
    | none => (⟨i, dir.mtime i, .failed⟩, s)
    | some root => (⟨i, dir.mtime i, .ok⟩, { s with datas := (loadFromYaml emit fromString s.datas root).datas })

/-- The loop over the files. -/
def loadConfFiles (emit : Yaml → Bytes) (fromString : V → Bytes → V) (dir : ConfDir) (s : Confs V) :
    List Bytes → List Visit × Confs V
  | [] => ([], s)
  | i :: files =>
    let (visit, s) := loadConfFile emit fromString dir s i
    let (visits, s) := loadConfFiles emit fromString dir s files
    (visit :: visits, s)

/-- `LoadFromConfDir`. -/
def loadFromConfDir (emit : Yaml → Bytes) (fromString : V → Bytes → V) (cwd : Bytes) (s : Confs V) (dir : ConfDir) :
    List Visit × Confs V :=
  loadConfFiles emit fromString dir s (dir.files cwd)

/-- Calls in turn. -/
def loadFromConfDirs (emit : Yaml → Bytes) (fromString : V → Bytes → V) (cwd : Bytes) (s : Confs V) :
    List ConfDir → List Visit × Confs V
  | [] => ([], s)
  | dir :: dirs =>
    let (visits, s) := loadFromConfDir emit fromString cwd s dir
    let (later, s) := loadFromConfDirs emit fromString cwd s dirs
    (visits ++ later, s)

end Config
end MyHttp
