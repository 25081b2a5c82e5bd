import MyHttp.Config.Yaml
import MyHttp.Lib.Containers
import Mathlib.Data.List.Lex

/-! The casts between containers and YAML texts (`config.h`), with the cast of their elements. -/

namespace MyHttp

open Lib.CString Lib.Containers

namespace Yaml

/-- Iteration over a node. The items of a sequence are not pairs, and what is read of them throws. -/
def pairs : Yaml → Option (List (Yaml × Yaml))
  | .map entries => some entries
  | .sequence (_ :: _) => none
  | _ => some []

/-- `node[key] = value`, for a key that is a string. -/
def assign (entries : List (Yaml × Yaml)) (key : Bytes) (value : Yaml) : List (Yaml × Yaml) :=
  match entries with
  | [] => [(.scalar key, value)]
  | e :: entries => if isKey key e.1 then (e.1, value) :: entries else e :: assign entries key value

/-- A node to which entries were assigned. -/
def ofEntries : List (Yaml × Yaml) → Yaml
  | [] => .null
  | entries => .map entries

end Yaml

namespace YamlCpp

variable {T S : Type}

/-- The text of a container whose elements are pushed to a node. -/
def elementsToString (yaml : YamlCpp) (C : Container T S) (cast : T → Option Bytes) (v : S) : Option Bytes :=
  yaml.vectorToString cast (C.iterate v)

/-- The container of the elements of a node. -/
def elementsFromString (yaml : YamlCpp) (C : Container T S) (cast : Bytes → Option T) (v : Bytes) : Option S :=
  (yaml.load v).bind fun node =>
    (yaml.elements node).foldlM (fun s i => (cast (yaml.emit i)).map (C.insert s)) C.empty

/-- The text of a container whose elements are assigned under their keys. -/
def entriesToString (yaml : YamlCpp) (C : Container (Bytes × T) S) (cast : T → Option Bytes) (v : S) : Option Bytes :=
  ((C.iterate v).foldlM (fun entries i => ((cast i.2).bind yaml.load).map (Yaml.assign entries i.1)) []).map fun entries =>
    yaml.emit (.ofEntries entries)

/-- The container of the entries of a node. -/
def entriesFromString (yaml : YamlCpp) (C : Container (Bytes × T) S) (cast : Bytes → Option T) (v : Bytes) : Option S :=
  (yaml.load v).bind fun node => node.pairs.bind fun entries =>
    entries.foldlM (fun s it => (cast (yaml.emit it.2)).map fun value => C.insert s (it.1.Scalar, value)) C.empty

/-! ### `std::list` -/

def listToString (yaml : YamlCpp) : (T → Option Bytes) → List T → Option Bytes := yaml.elementsToString (sequence T)

def listFromString (yaml : YamlCpp) : (Bytes → Option T) → Bytes → Option (List T) := yaml.elementsFromString (sequence T)

/-! ### `std::set` -/

section Set

variable (lt : T → T → Prop) [DecidableRel lt] [IsTrans T lt]

def setToString (yaml : YamlCpp) : (T → Option Bytes) → Ordered lt → Option Bytes := yaml.elementsToString (ordered lt)

def setFromString (yaml : YamlCpp) : (Bytes → Option T) → Bytes → Option (Ordered lt) := yaml.elementsFromString (ordered lt)

end Set

/-! ### `std::map<std::string, T>` -/

/-- The order of the entries. -/
def keyLt (a b : Bytes × T) : Prop := a.1 < b.1

instance : DecidableRel (keyLt (T := T)) := fun a b => List.decidableLT a.1 b.1

instance : IsTrans (Bytes × T) keyLt := ⟨fun _ _ _ h h' => List.lt_trans h h'⟩

def mapToString (yaml : YamlCpp) : (T → Option Bytes) → Ordered (keyLt (T := T)) → Option Bytes :=
  yaml.entriesToString (ordered keyLt)

def mapFromString (yaml : YamlCpp) : (Bytes → Option T) → Bytes → Option (Ordered (keyLt (T := T))) :=
  yaml.entriesFromString (ordered keyLt)

/-! ### `std::unordered_set` and `std::unordered_map<std::string, T>` -/

section Unordered

variable [DecidableEq T]

def unorderedSetToString (yaml : YamlCpp) (iteration : Iteration (id : T → T)) :
    (T → Option Bytes) → Hashed (id : T → T) → Option Bytes := yaml.elementsToString (hashed iteration)

def unorderedSetFromString (yaml : YamlCpp) (iteration : Iteration (id : T → T)) :
    (Bytes → Option T) → Bytes → Option (Hashed (id : T → T)) := yaml.elementsFromString (hashed iteration)

def unorderedMapToString (yaml : YamlCpp) (iteration : Iteration (Prod.fst : Bytes × T → Bytes)) :
    (T → Option Bytes) → Hashed (Prod.fst : Bytes × T → Bytes) → Option Bytes := yaml.entriesToString (hashed iteration)

def unorderedMapFromString (yaml : YamlCpp) (iteration : Iteration (Prod.fst : Bytes × T → Bytes)) :
    (Bytes → Option T) → Bytes → Option (Hashed (Prod.fst : Bytes × T → Bytes)) := yaml.entriesFromString (hashed iteration)

end Unordered
end YamlCpp
end MyHttp
