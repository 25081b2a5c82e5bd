import MyHttp.Config.LoadFromYaml

/-! Which calls `LoadFromYaml` makes: in the order of the tree, one for each node whose path is the name of a variable.
    The path has the keys from the root on, but for those in front that are empty. -/

namespace MyHttp

open Lib.CString

namespace Yaml

mutual

/-- The nodes of a tree with their keys from the root on, each node before those below it. -/
def nodes (node : Yaml) : List (List Bytes × Yaml) :=
  ([], node) ::
    match node with
    | .map entries => nodesOf entries
    | _ => []

def nodesOf : List (Yaml × Yaml) → List (List Bytes × Yaml)
  | [] => []
  | (key, value) :: entries => (nodes value).map (fun x => (key.Scalar :: x.1, x.2)) ++ nodesOf entries

end

end Yaml

namespace Config

/-- The keys, with dots between them. -/
def dotted (keys : List Bytes) : Bytes := (ascii ".").intercalate keys

/-- The path under which a node is looked up. -/
def pathOf (keys : List Bytes) : Bytes := dotted (keys.dropWhile (· = []))

/-- All keys on the way consist of legal characters. -/
def Legal (keys : List Bytes) : Prop := ∀ key ∈ keys, key.all legal = true

instance : DecidablePred Legal := fun keys => inferInstanceAs (Decidable (∀ key ∈ keys, key.all legal = true))

variable {V : Type} {emit : Yaml → Bytes} {fromString : V → Bytes → V} {s : Loading V} {datas : Bytes → Option V}
  {root : Yaml} {path key name : Bytes} {keys : List Bytes} {members : List (Bytes × Yaml)}

/-! ### Paths -/

theorem all_extend (key : Bytes) (hpath : path.all legal = true) : (extend path key).all legal = key.all legal := by
  have hdot : (ascii ".").all legal = true := by decide
  unfold extend
  split
  · rfl
  · rw [List.all_append, List.all_append, hpath, hdot, Bool.true_and, Bool.true_and]

theorem legal_cons : Legal (key :: keys) ↔ key.all legal = true ∧ Legal keys := List.forall_mem_cons

theorem foldl_extend (hpath : path ≠ []) (keys : List Bytes) :
    keys.foldl extend path = path ++ keys.flatMap fun key => ascii "." ++ key := by
  induction keys generalizing path with
  | nil => exact (List.append_nil path).symm
  | cons key keys ih =>
    have hnext : extend path key = path ++ ascii "." ++ key := if_neg hpath
    have hne : path ++ ascii "." ++ key ≠ [] := List.append_ne_nil_of_left_ne_nil (List.append_ne_nil_of_left_ne_nil hpath _) _
    rw [List.foldl_cons, hnext, ih hne, List.flatMap_cons, List.append_assoc, List.append_assoc, List.append_assoc]

theorem dotted_cons (key : Bytes) (keys : List Bytes) :
    dotted (key :: keys) = key ++ keys.flatMap fun key => ascii "." ++ key := by
  induction keys generalizing key with
  | nil => simp [dotted, List.intercalate]
  | cons k keys ih =>
    have hcons : dotted (key :: k :: keys) = key ++ ascii "." ++ dotted (k :: keys) := by
      simp [dotted, List.intercalate]
    rw [hcons, ih, List.flatMap_cons, List.append_assoc, List.append_assoc]

/-- Empty keys in front leave the path empty. -/
theorem foldl_extend_nil (keys : List Bytes) : keys.foldl extend [] = pathOf keys := by
  induction keys with
  | nil => rfl
  | cons key keys ih =>
    have hfirst : extend [] key = key := if_pos rfl
    rw [List.foldl_cons, hfirst]
    by_cases hkey : key = []
    · subst hkey
      rw [ih]
      rfl
    · have hdrop : (key :: keys).dropWhile (· = []) = key :: keys := List.dropWhile_cons_of_neg (by simpa using hkey)
      rw [foldl_extend hkey, pathOf, hdrop, dotted_cons]

theorem all_foldl_extend (hpath : path.all legal = true) (hkeys : Legal keys) :
    (keys.foldl extend path).all legal = true := by
  induction keys generalizing path with
  | nil => exact hpath
  | cons key keys ih =>
    obtain ⟨hkey, hrest⟩ := legal_cons.mp hkeys
    exact ih ((all_extend key hpath).trans hkey) hrest

/-! ### The list -/

/-- A node under the path that begins with `path`, if it is listed. -/
def member (path : Bytes) (x : List Bytes × Yaml) : Option (Bytes × Yaml) :=
  if Legal x.1 then some (x.1.foldl extend path, x.2) else none

theorem member_cons (path key : Bytes) (x : List Bytes × Yaml) :
    member path (key :: x.1, x.2) = if key.all legal = true then member (extend path key) x else none := by
  unfold member
  by_cases hkey : key.all legal = true
  · rw [if_pos hkey]
    exact if_congr (legal_cons.trans (and_iff_right hkey)) rfl rfl
  · rw [if_neg hkey, if_neg fun hand => hkey (legal_cons.mp hand).1]

theorem listAllMember_illegal (hpath : path.all legal = false) (node : Yaml) : listAllMember path node = [] := by
  cases node <;> simp [listAllMember, hpath]

mutual

/-- The nodes that are listed, in the order of the tree. -/
theorem listAllMember_eq : ∀ (node : Yaml) (path : Bytes), path.all legal = true →
    listAllMember path node = node.nodes.filterMap (member path)
  | .map entries, path, hpath => by
    rw [listAllMember, hpath, Yaml.nodes, List.filterMap_cons]
    simp only [listEntries_eq entries path hpath]
    rfl
  | .null, path, hpath => by
    simp only [listAllMember, hpath, Yaml.nodes]
    rfl
  | .scalar _, path, hpath => by
    simp only [listAllMember, hpath, Yaml.nodes]
    rfl
  | .sequence _, path, hpath => by
    simp only [listAllMember, hpath, Yaml.nodes]
    rfl

theorem listEntries_eq : ∀ (entries : List (Yaml × Yaml)) (path : Bytes), path.all legal = true →
    listEntries path entries = (Yaml.nodesOf entries).filterMap (member path)
  | [], _, _ => by
    rw [listEntries, Yaml.nodesOf]
    rfl
  | (key, value) :: entries, path, hpath => by
    rw [listEntries, Yaml.nodesOf, List.filterMap_append, List.filterMap_map, listEntries_eq entries path hpath]
    congr 1
    have hmember : (member path ∘ fun x : List Bytes × Yaml => (key.Scalar :: x.1, x.2)) =
        fun x => if key.Scalar.all legal = true then member (extend path key.Scalar) x else none :=
      funext fun x => member_cons path key.Scalar x
    rw [hmember]
    by_cases hkey : key.Scalar.all legal = true
    · simp only [if_pos hkey]
      exact listAllMember_eq value _ ((all_extend key.Scalar hpath).trans hkey)
    · simp only [if_neg hkey]
      have hillegal : (extend path key.Scalar).all legal = false := by
        rw [all_extend key.Scalar hpath]
        exact Bool.not_eq_true _ ▸ hkey
      rw [listAllMember_illegal hillegal]
      exact (List.filterMap_none _).symm

end

/-! ### The calls -/

theorem map_tolower (h : path.all legal = true) : path.map tolower = path := by
  have hlegal : ∀ c ∈ ascii "abcdefghikjlmnopqrstuvwxyz._0123456789", tolower c = c := by decide
  refine (List.map_congr_left fun c hc => ?_).trans (List.map_id path)
  exact hlegal c (of_decide_eq_true (List.all_eq_true.mp h c hc))

/-- The call that is made for a node. -/
def callOf (emit : Yaml → Bytes) (datas : Bytes → Option V) (i : Bytes × Yaml) : Option (Bytes × Bytes) :=
  if i.1 ≠ [] ∧ (datas i.1).isSome then some (i.1, textOf emit i.2) else none

/-- A variable after calls, of which those of its name are meant for it. -/
def afterCalls (fromString : V → Bytes → V) (name : Bytes) (calls : List (Bytes × Bytes)) (var : V) : V :=
  ((calls.filter fun c => c.1 = name).map (·.2)).foldl fromString var

theorem loadMember_none {i : Bytes × Yaml} (hlegal : i.1.all legal = true) (h : callOf emit s.datas i = none) :
    loadMember emit fromString s i = s := by
  unfold loadMember
  by_cases hnil : i.1 = []
  · exact if_pos hnil
  · rw [if_neg hnil, map_tolower hlegal]
    dsimp only
    cases hvar : s.datas i.1 with
    | none => rfl
    | some var =>
      have hcall : callOf emit s.datas i = some (i.1, textOf emit i.2) := if_pos ⟨hnil, by rw [hvar]; rfl⟩
      cases hcall.symm.trans h

theorem loadMember_some (fromString : V → Bytes → V) {i : Bytes × Yaml} {call : Bytes × Bytes} (hlegal : i.1.all legal = true)
    (h : callOf emit s.datas i = some call) :
    (loadMember emit fromString s i).calls = s.calls ++ [call] ∧
      ∀ name, (loadMember emit fromString s i).datas name = (s.datas name).map (afterCalls fromString name [call]) := by
  obtain ⟨⟨hnil, hsome⟩, heq⟩ := Option.ite_none_right_eq_some.mp h
  obtain rfl := Option.some.inj heq
  obtain ⟨var, hvar⟩ := Option.isSome_iff_exists.mp hsome
  unfold loadMember
  rw [if_neg hnil, map_tolower hlegal]
  dsimp only
  rw [hvar]
  refine ⟨rfl, fun name => ?_⟩
  dsimp only
  by_cases hname : i.1 = name
  · subst hname
    rw [Function.update_self, hvar, Option.map_some, afterCalls, List.filter_cons_of_pos (by simp)]
    rfl
  · rw [Function.update_of_ne (Ne.symm hname)]
    have hid : afterCalls fromString name [(i.1, textOf emit i.2)] = id := by
      funext var
      rw [afterCalls, List.filter_cons_of_neg (by simpa using hname)]
      rfl
    rw [hid, Option.map_id_fun]
    rfl

theorem afterCalls_append (calls calls' : List (Bytes × Bytes)) (var : V) :
    afterCalls fromString name (calls ++ calls') var =
      afterCalls fromString name calls' (afterCalls fromString name calls var) := by
  unfold afterCalls
  rw [List.filter_append, List.map_append, List.foldl_append]

/-- The loop over the nodes makes their calls in order, and each variable is left as its calls make it. -/
theorem foldl_loadMember (emit : Yaml → Bytes) (fromString : V → Bytes → V)
    (hlegal : ∀ i ∈ members, i.1.all legal = true) (s : Loading V) :
    (members.foldl (loadMember emit fromString) s).calls = s.calls ++ members.filterMap (callOf emit s.datas) ∧
      ∀ name, (members.foldl (loadMember emit fromString) s).datas name =
        (s.datas name).map (afterCalls fromString name (members.filterMap (callOf emit s.datas))) := by
  induction members generalizing s with
  | nil =>
    refine ⟨(List.append_nil _).symm, fun name => ?_⟩
    exact (congrFun Option.map_id_fun (s.datas name)).symm
  | cons i members ih =>
    obtain ⟨hi, hrest⟩ := List.forall_mem_cons.mp hlegal
    obtain ⟨hcalls, hdatas⟩ := ih hrest (loadMember emit fromString s i)
    rw [List.foldl_cons, List.filterMap_cons]
    cases hcall : callOf emit s.datas i with
    | none =>
      rw [loadMember_none hi hcall] at hcalls hdatas ⊢
      exact ⟨hcalls, hdatas⟩
    | some call =>
      obtain ⟨hcalls₁, hdatas₁⟩ := loadMember_some fromString hi hcall
      have hsame : callOf emit (loadMember emit fromString s i).datas = callOf emit s.datas := by
        funext j
        unfold callOf
        rw [hdatas₁, Option.isSome_map]
      rw [hsame] at hcalls hdatas
      refine ⟨?_, fun name => ?_⟩
      · rw [hcalls, hcalls₁, List.append_assoc, List.singleton_append]
      · rw [hdatas, hdatas₁, Option.map_map]
        refine congrArg (Option.map · (s.datas name)) (funext fun var => ?_)
        exact (afterCalls_append [call] _ var).symm

/-- The calls that are made for the nodes of a tree. -/
def callsFor (emit : Yaml → Bytes) (datas : Bytes → Option V) (root : Yaml) : List (Bytes × Bytes) :=
  root.nodes.filterMap fun x =>
    if Legal x.1 ∧ pathOf x.1 ≠ [] ∧ (datas (pathOf x.1)).isSome then some (pathOf x.1, textOf emit x.2) else none

/-- `LoadFromYaml` makes one call for each node with legal keys whose path is not empty and names a variable, in the order
    of the tree, and leaves every variable as its own calls make it. -/
theorem loadFromYaml_eq (emit : Yaml → Bytes) (fromString : V → Bytes → V) (datas : Bytes → Option V) (root : Yaml) :
    (loadFromYaml emit fromString datas root).calls = callsFor emit datas root ∧
      ∀ name, (loadFromYaml emit fromString datas root).datas name =
        (datas name).map (afterCalls fromString name (callsFor emit datas root)) := by
  have hmembers : listAllMember [] root = root.nodes.filterMap (member []) := listAllMember_eq root [] rfl
  have hlegal : ∀ i ∈ listAllMember [] root, i.1.all legal = true := by
    intro i hi
    rw [hmembers] at hi
    obtain ⟨x, -, hx⟩ := List.mem_filterMap.mp hi
    obtain ⟨hkeys, heq⟩ := Option.ite_none_right_eq_some.mp hx
    obtain rfl := Option.some.inj heq
    exact all_foldl_extend rfl hkeys
  have hcalls : (listAllMember [] root).filterMap (callOf emit datas) = callsFor emit datas root := by
    rw [hmembers, List.filterMap_filterMap]
    refine List.filterMap_congr fun x _ => ?_
    unfold member
    by_cases hkeys : Legal x.1
    · rw [if_pos hkeys, Option.bind_some, callOf, foldl_extend_nil]
      exact if_congr (and_iff_right hkeys).symm rfl rfl
    · rw [if_neg hkeys, Option.bind_none, if_neg fun hand => hkeys hand.1]
  have hfold := foldl_loadMember emit fromString hlegal ⟨[], datas⟩
  rw [hcalls] at hfold
  exact hfold

/-- A variable without a name is never called, and below an empty key there is one that is called without the dot. -/
theorem empty_key_left_out : ¬∀ (emit : Yaml → Bytes) (fromString : Bytes → Bytes → Bytes) (datas : Bytes → Option Bytes) root,
    (loadFromYaml emit fromString datas root).calls = root.nodes.filterMap fun x =>
      if (∀ keys ∈ x.1.inits, (dotted keys).all legal = true) ∧ (datas (dotted x.1)).isSome then
        some (dotted x.1, textOf emit x.2) else none := by
  intro h
  have hcalls := h (fun _ => []) (fun _ val => val) (fun name => if name = [] ∨ name = ascii "a" then some [] else none)
    (.map [(.scalar [], .map [(.text "a", .text "1")])])
  exact absurd hcalls (by decide)

end Config
end MyHttp
