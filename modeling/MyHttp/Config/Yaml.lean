import MyHttp.Lib.CString

/-! YAML nodes, and what `config.h` uses of `yaml-cpp`. -/

namespace MyHttp

open Lib.CString

/-- `YAML::Node`; the entries of a map are in order. -/
inductive Yaml where
  | null
  | scalar (s : Bytes)
  | sequence (items : List Yaml)
  | map (entries : List (Yaml × Yaml))

namespace Yaml

/-- `Scalar()`, which is empty on other nodes. -/
def Scalar : Yaml → Bytes
  | .scalar s => s
  | _ => []

/-- A string assigned to a node. -/
def text (s : String) : Yaml := .scalar (ascii s)

/-- Whether a key is found under this text. -/
def isKey (key : Bytes) : Yaml → Bool
  | .scalar s => s = key
  | _ => false

/-- `node[key]`: the node when it is defined. On a scalar it throws. -/
def get (node : Yaml) (key : String) : Option (Option Yaml) :=
  match node with
  | .scalar _ => none
  | .map entries => some ((entries.find? fun e => isKey (ascii key) e.1).map (·.2))
  | _ => some none

end Yaml

/-- The library: `none` is an exception. -/
structure YamlCpp where
  /-- `YAML::Load` -/
  load : Bytes → Option Yaml
  /-- `ss << node` -/
  emit : Yaml → Bytes
  /-- `as<std::string>()` -/
  asString : Yaml → Option Bytes
  /-- `as<int>()` -/
  asInt : Yaml → Option Int32
  /-- an `int` assigned to a node -/
  ofInt : Int32 → Yaml
  /-- `node[0]`, `node[1]` and so on, up to `node.size()` -/
  elements : Yaml → List Yaml

namespace YamlCpp

variable {T : Type}

/-- `LexicalCast<std::vector<T>, std::string>`. A node to which nothing is pushed is null. -/
def vectorToString (yaml : YamlCpp) (cast : T → Option Bytes) (v : List T) : Option Bytes :=
  (v.mapM fun i => (cast i).bind yaml.load).map fun nodes =>
    yaml.emit (match nodes with
      | [] => .null
      | nodes => .sequence nodes)

/-- `LexicalCast<std::string, std::vector<T>>`. -/
def vectorFromString (yaml : YamlCpp) (cast : Bytes → Option T) (v : Bytes) : Option (List T) :=
  (yaml.load v).bind fun node => (yaml.elements node).mapM fun i => cast (yaml.emit i)

end YamlCpp
end MyHttp
