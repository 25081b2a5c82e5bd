import MyHttp.Config.LoadFromYaml

/-! The registry of `Config` (`config.h`): the variables that `Lookup` makes and finds, and how they are set, by
    `LoadFromYaml` and through the pointers that were handed out. None of them has listeners. -/

namespace MyHttp
namespace Config

open Lib.CString

/-- The types of variables, with `operator==` and the cast of a text; `none` is an exception. -/
structure Types where
  Tag : Type
  decEq : DecidableEq Tag
  Val : Tag → Type
  eq : {t : Tag} → Val t → Val t → Bool
  cast : (t : Tag) → Bytes → Option (Val t)

variable {types : Types}

instance : DecidableEq types.Tag := types.decEq

/-- A `ConfigVar<T>`. -/
structure Var (types : Types) where
  name : Bytes
  tag : types.Tag
  val : types.Val tag

namespace Var

/-- `setValue`. -/
def setValue (var : Var types) (v : types.Val var.tag) : Var types := if types.eq v var.val then var else { var with val := v }

/-- `fromString`, without what it returns. -/
def fromString (var : Var types) (text : Bytes) : Var types :=
  match types.cast var.tag text with
  | some v => var.setValue v
  | none => var

/-- `setValue` through a pointer, which has the type of its variable. -/
def setThrough (tag : types.Tag) (v : types.Val tag) (var : Var types) : Var types :=
  if h : tag = var.tag then var.setValue (h ▸ v) else var

end Var

/-- The variables that were made, and the map of names; a pointer is the place of a variable. -/
structure Registry (types : Types) where
  vars : List (Var types)
  datas : Bytes → Option Nat

inductive Call (types : Types) where
  /-- `Lookup` with a default -/
  | lookup (name : Bytes) (tag : types.Tag) (defaultValue : types.Val tag)
  | find (name : Bytes) (tag : types.Tag)
  | lookupBase (name : Bytes)
  | loadFromYaml (root : Yaml)
  | setValue (p : Nat) (tag : types.Tag) (v : types.Val tag)

namespace Call

/-- The name that a call asks for. -/
def name : Call types → Option Bytes
  | .lookup name _ _ | .find name _ | .lookupBase name => some name
  | _ => none

/-- The type that a call asks for. -/
def tag : Call types → Option types.Tag
  | .lookup _ tag _ | .find _ tag => some tag
  | _ => none

end Call

inductive Outcome where
  | ptr (p : Nat)
  | nullptr
  /-- the exception of a name that is not legal -/
  | invalidArgument
  | done
deriving DecidableEq, Repr

namespace Registry

def empty : Registry types := ⟨[], fun _ => none⟩

/-- `dynamic_pointer_cast`. -/
def pointerCast (s : Registry types) (p : Nat) (tag : types.Tag) : Outcome :=
  if s.vars[p]?.any (·.tag = tag) then .ptr p else .nullptr

/-- `Lookup` with a default. -/
def lookup (s : Registry types) (name : Bytes) (tag : types.Tag) (defaultValue : types.Val tag) : Registry types × Outcome :=
  match s.datas name with
  | some p => (s, s.pointerCast p tag)
  | none =>
    if name.all legal then
      (⟨s.vars ++ [⟨name.map tolower, tag, defaultValue⟩], Function.update s.datas name (some s.vars.length)⟩,
        .ptr s.vars.length)
    else (s, .invalidArgument)

/-- `Lookup` without a default. -/
def find (s : Registry types) (name : Bytes) (tag : types.Tag) : Outcome :=
  match s.datas name with
  | none => .nullptr
  | some p => s.pointerCast p tag

def lookupBase (s : Registry types) (name : Bytes) : Outcome :=
  match s.datas name with
  | none => .nullptr
  | some p => .ptr p

/-- What `LoadFromYaml` does with one of the nodes. -/
def loadNode (emit : Yaml → Bytes) (s : Registry types) (i : Bytes × Yaml) : Registry types :=
  if i.1 = [] then s
  else
    match s.datas (i.1.map tolower) with
    | none => s
    | some p => { s with vars := s.vars.modify p fun var => var.fromString (textOf emit i.2) }

def loadFromYaml (emit : Yaml → Bytes) (s : Registry types) (root : Yaml) : Registry types :=
  (listAllMember [] root).foldl (loadNode emit) s

def step (emit : Yaml → Bytes) (s : Registry types) : Call types → Registry types × Outcome
  | .lookup name tag defaultValue => s.lookup name tag defaultValue
  | .find name tag => (s, s.find name tag)
  | .lookupBase name => (s, s.lookupBase name)
  | .loadFromYaml root => (s.loadFromYaml emit root, .done)
  | .setValue p tag v => ({ s with vars := s.vars.modify p (Var.setThrough tag v) }, .done)

/-- A run, with the outcome of every call. -/
def run (emit : Yaml → Bytes) (s : Registry types) : List (Call types) → Registry types × List (Call types × Outcome)
  | [] => (s, [])
  | c :: calls => ((run emit (s.step emit c).1 calls).1, (c, (s.step emit c).2) :: (run emit (s.step emit c).1 calls).2)

end Registry
end Config
end MyHttp
