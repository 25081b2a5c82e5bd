import MyHttp.Lib.CString
import Mathlib.Logic.Function.Basic

/-! `ServletDispatch` (`servlet.h`, `servlet.cpp`): the servlets of single URIs, those of glob patterns in their order, and
    the default. -/

namespace MyHttp
namespace Http

open Lib.CString

/-- `m_datas`, `m_globs` and `m_default`, with servlets of any type. A null pointer is none of them. -/
structure ServletDispatch (S : Type) where
  datas : Bytes → Option S
  globs : List (Bytes × S)
  default : S

namespace ServletDispatch

variable {S : Type}

/-- The constructor, with its `NotFoundServlet`. -/
def new (notFound : S) : ServletDispatch S := ⟨fun _ => none, [], notFound⟩

/-- The loop that erases the first entry of a pattern. -/
def eraseGlob (uri : Bytes) : List (Bytes × S) → List (Bytes × S)
  | [] => []
  | it :: globs => if it.1 = uri then globs else it :: eraseGlob uri globs

/-- A call that takes a callback adds the `FunctionServlet` that is made of it. -/
inductive Call (S : Type) where
  | addServlet (uri : Bytes) (slt : S)
  | addGlobServlet (uri : Bytes) (slt : S)
  | delServlet (uri : Bytes)
  | delGolbServlet (uri : Bytes)
  | setDefault (v : S)
deriving DecidableEq, Repr

def step (s : ServletDispatch S) : Call S → ServletDispatch S
  | .addServlet uri slt => { s with datas := Function.update s.datas uri (some slt) }
  | .addGlobServlet uri slt => { s with globs := eraseGlob uri s.globs ++ [(uri, slt)] }
  | .delServlet uri => { s with datas := Function.update s.datas uri none }
  | .delGolbServlet uri => { s with globs := eraseGlob uri s.globs }
  | .setDefault v => { s with default := v }

/-- `getMatchedServlet`, with `fnmatch` of a pattern and a URI. -/
def getMatchedServlet (fnmatch : Bytes → Bytes → Bool) (s : ServletDispatch S) (uri : Bytes) : S :=
  match s.datas uri with
  | some slt => slt
  | none =>
    match s.globs.find? fun it => fnmatch it.1 uri with
    | some it => it.2
    | none => s.default

end ServletDispatch
end Http
end MyHttp
