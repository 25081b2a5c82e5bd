import MyHttp.Config.Yaml
import Mathlib.Logic.Function.Basic

/-! `Config::LoadFromYaml` (`config.cpp`): the nodes of a tree under their paths, and the variables that are updated. -/

namespace MyHttp
namespace Config

open Lib.CString

/-- The characters of a name. -/
def legal (c : UInt8) : Bool := c ∈ ascii "abcdefghikjlmnopqrstuvwxyz._0123456789"

/-- The path of an entry. -/
def extend (path key : Bytes) : Bytes := if path = [] then key else path ++ ascii "." ++ key

mutual

/-- `ListAllMember`, with `prefix` as the path. -/
def listAllMember (path : Bytes) (node : Yaml) : List (Bytes × Yaml) :=
  if !path.all legal then []
  else
    (path, node) ::
      match node with
      | .map entries => listEntries path entries
      | _ => []

def listEntries (path : Bytes) : List (Yaml × Yaml) → List (Bytes × Yaml)
  | [] => []
  | (key, value) :: entries => listAllMember (extend path key.Scalar) value ++ listEntries path entries

end

/-- The text that a variable is given. -/
def textOf (emit : Yaml → Bytes) : Yaml → Bytes
  | .scalar s => s
  | node => emit node

/-- The calls of `fromString` so far, and the variables by name. -/
structure Loading (V : Type) where
  calls : List (Bytes × Bytes)
  datas : Bytes → Option V

variable {V : Type}

/-- What is done with one of the nodes. -/
def loadMember (emit : Yaml → Bytes) (fromString : V → Bytes → V) (s : Loading V) (i : Bytes × Yaml) : Loading V :=
  if i.1 = [] then s
  else
    let key := i.1.map tolower
    match s.datas key with
    | none => s
    | some var =>
      ⟨s.calls ++ [(key, textOf emit i.2)], Function.update s.datas key (some (fromString var (textOf emit i.2)))⟩

/-- `LoadFromYaml`. `fromString` is what the call leaves of a variable. -/
def loadFromYaml (emit : Yaml → Bytes) (fromString : V → Bytes → V) (datas : Bytes → Option V) (root : Yaml) : Loading V :=
  (listAllMember [] root).foldl (loadMember emit fromString) ⟨[], datas⟩

end Config
end MyHttp
