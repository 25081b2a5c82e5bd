import Mathlib.Data.List.Basic

/-! A tree of files with symbolic links, and the system calls that look a path up in it or put a directory there. A path is the
    text of a call; the nodes are numbered, 0 is the root. -/

namespace Lib.FileTree

abbrev Name := List UInt8

inductive Node where
  | file
  | link (target : List UInt8)
  | dir (parent : Nat) (entries : List (Name × Nat))
deriving DecidableEq, Repr

structure FileSystem where
  nodes : List Node
  /-- where no entry can be made, for want of a permission or of space -/
  refuses : Nat → Name → Bool

/-- A component that has come to its end. -/
def ended (name : Name) : List Name := if name = [] then [] else [name]

/-- The components of a path, behind the first bytes of one. -/
def names (name : Name) : List UInt8 → List Name
  | [] => ended name
  | c :: s => if c = 47 then ended name ++ names [] s else names (name ++ [c]) s

def dot : Name := [46]

def dotdot : Name := [46, 46]

/-- A path that ends with a slash asks for a directory. -/
def components (path : List UInt8) : List Name :=
  names [] path ++ if path.getLast? = some 47 ∧ names [] path ≠ [] then [dot] else []

/-- Where a path starts. -/
def start (path : List UInt8) (cwd : Nat) : Nat := if path.head? = some 47 then 0 else cwd

namespace FileSystem

/-- The directory with its parent and its entries. -/
def dir? (fs : FileSystem) (d : Nat) : Option (Nat × List (Name × Nat)) :=
  match fs.nodes[d]? with
  | some (.dir parent entries) => some (parent, entries)
  | _ => none

/-- What one component leads to. -/
def child (fs : FileSystem) (d : Nat) (name : Name) : Option Nat :=
  (fs.dir? d).bind fun x => if name = dot then some d else if name = dotdot then some x.1 else x.2.lookup name

/-- The text of a link. -/
def link? (fs : FileSystem) (i : Nat) : Option (List UInt8) :=
  match fs.nodes[i]? with
  | some (.link target) => some target
  | _ => none

/-- The components in turn; `follow` goes on from a link. -/
def walkFrom (fs : FileSystem) (follow : Nat → List Name → Option Nat) (d : Nat) : List Name → Option Nat
  | [] => some d
  | name :: rest =>
    (fs.child d name).bind fun i =>
      match fs.link? i with
      | some target => follow (start target d) (components target ++ rest)
      | none => walkFrom fs follow i rest

/-- The node at the end of a path, through that many links at most. -/
def walk (fs : FileSystem) : Nat → Nat → List Name → Option Nat
  | 0 => fs.walkFrom fun _ _ => none
  | links + 1 => fs.walkFrom (walk fs links)

def maxLinks : Nat := 40

def resolve (fs : FileSystem) (cwd : Nat) (path : List UInt8) (l : List Name) : Option Nat := fs.walk maxLinks (start path cwd) l

/-- `access` with `F_OK`. -/
def access (fs : FileSystem) (cwd : Nat) (path : List UInt8) : Bool :=
  path ≠ [] && (fs.resolve cwd path (components path)).isSome

/-- `lstat` succeeds: the last component is an entry, and may be a link to nowhere. -/
def lstat (fs : FileSystem) (cwd : Nat) (path : List UInt8) : Bool :=
  match (components path).getLast? with
  | none => path ≠ []
  | some name => ((fs.resolve cwd path (components path).dropLast).bind fun d => fs.child d name).isSome

/-- A new directory in a directory. -/
def addDir (fs : FileSystem) (d : Nat) (name : Name) (parent : Nat) (entries : List (Name × Nat)) : FileSystem :=
  { fs with nodes := fs.nodes.set d (.dir parent (entries ++ [(name, fs.nodes.length)])) ++ [.dir d []] }

/-- `mkdir`. -/
def mkdir (fs : FileSystem) (cwd : Nat) (path : List UInt8) : Option FileSystem :=
  match (names [] path).getLast? with
  | none => none
  | some name =>
    (fs.resolve cwd path (names [] path).dropLast).bind fun d =>
      if (fs.child d name).isSome ∨ fs.refuses d name then none
      else (fs.dir? d).map fun x => fs.addDir d name x.1 x.2

/-! ### Walks -/

variable {fs fs' fs'' : FileSystem} {cwd d i j links parent : Nat} {name : Name} {l l' : List Name} {entries : List (Name × Nat)}
  {path : List UInt8}

theorem walk_nil : fs.walk links d [] = some d := by cases links <;> rfl

theorem walk_cons (hchild : fs.child d name = some i) (hlink : fs.link? i = none) :
    fs.walk links d (name :: l) = fs.walk links i l := by
  cases links <;> simp only [walk, walkFrom, hchild, Option.bind_some, hlink]

theorem walk_link {target : List UInt8} (hchild : fs.child d name = some i) (hlink : fs.link? i = some target) :
    fs.walk (links + 1) d (name :: l) = fs.walk links (start target d) (components target ++ l) := by
  simp only [walk, walkFrom, hchild, Option.bind_some, hlink]

/-- The ways in which a walk gets over its first component. -/
theorem walk_cons_cases (h : fs.walk links d (name :: l) = some j) :
    ∃ i, fs.child d name = some i ∧
      (fs.link? i = none ∧ fs.walk links i l = some j ∨
        ∃ k target, links = k + 1 ∧ fs.link? i = some target ∧ fs.walk k (start target d) (components target ++ l) = some j) := by
  cases hchild : fs.child d name with
  | none => cases links <;> simp [walk, walkFrom, hchild] at h
  | some i =>
    refine ⟨i, rfl, ?_⟩
    cases hlink : fs.link? i with
    | none => exact .inl ⟨rfl, (walk_cons hchild hlink).symm.trans h⟩
    | some target =>
      cases links with
      | zero => simp [walk, walkFrom, hchild, hlink] at h
      | succ k => exact .inr ⟨k, target, rfl, rfl, (walk_link hchild hlink).symm.trans h⟩

/-- A walk that goes through has gone through the first part of its path, with some links left for the others. -/
theorem walk_append (links d : Nat) (l l' : List Name) (h : fs.walk links d (l ++ l') = some j) :
    ∃ i k, fs.walk links d l = some i ∧ fs.walk k i l' = some j := by
  induction links generalizing d l with
  | zero =>
    induction l generalizing d with
    | nil => exact ⟨d, 0, walk_nil, h⟩
    | cons name l ih =>
      obtain ⟨i, hchild, ⟨hlink, hrest⟩ | ⟨k, _, hzero, -⟩⟩ := walk_cons_cases h
      · rw [walk_cons hchild hlink]
        exact ih i hrest
      · cases hzero
  | succ links ihLinks =>
    induction l generalizing d with
    | nil => exact ⟨d, links + 1, walk_nil, h⟩
    | cons name l ih =>
      obtain ⟨i, hchild, ⟨hlink, hrest⟩ | ⟨k, target, hk, hlink, hrest⟩⟩ := walk_cons_cases h
      · rw [walk_cons hchild hlink]
        exact ih i hrest
      · obtain rfl := Nat.succ.inj hk
        rw [walk_link hchild hlink]
        refine ihLinks _ _ ?_
        rw [List.append_assoc]
        exact hrest

/-- Behind the first part of a path a walk goes on from where that led, with the links that are left. -/
theorem walk_split (links d : Nat) (l : List Name) (h : fs.walk links d l = some i) :
    ∃ k, ∀ l', fs.walk links d (l ++ l') = fs.walk k i l' := by
  induction links generalizing d l with
  | zero =>
    induction l generalizing d with
    | nil =>
      obtain rfl := Option.some.inj (walk_nil.symm.trans h)
      exact ⟨0, fun _ => rfl⟩
    | cons name l ih =>
      obtain ⟨j, hchild, ⟨hlink, hrest⟩ | ⟨k, _, hzero, -⟩⟩ := walk_cons_cases h
      · obtain ⟨k, hk⟩ := ih j hrest
        exact ⟨k, fun l' => (walk_cons hchild hlink).trans (hk l')⟩
      · cases hzero
  | succ links ihLinks =>
    induction l generalizing d with
    | nil =>
      obtain rfl := Option.some.inj (walk_nil.symm.trans h)
      exact ⟨links + 1, fun _ => rfl⟩
    | cons name l ih =>
      obtain ⟨j, hchild, ⟨hlink, hrest⟩ | ⟨k, target, hk, hlink, hrest⟩⟩ := walk_cons_cases h
      · obtain ⟨k, hk⟩ := ih j hrest
        exact ⟨k, fun l' => (walk_cons hchild hlink).trans (hk l')⟩
      · obtain rfl := Nat.succ.inj hk
        obtain ⟨k, hk⟩ := ihLinks _ _ hrest
        refine ⟨k, fun l' => ?_⟩
        rw [List.cons_append, walk_link hchild hlink, ← List.append_assoc]
        exact hk l'

theorem link?_of_dir? {x : Nat × List (Name × Nat)} (h : fs.dir? i = some x) : fs.link? i = none := by
  unfold dir? at h
  unfold link?
  cases hnode : fs.nodes[i]? with
  | none => rfl
  | some node =>
    rw [hnode] at h
    cases node with
    | file | link => cases h
    | dir => rfl

theorem dir?_of_child (h : fs.child d name = some i) : ∃ x, fs.dir? d = some x :=
  (Option.bind_eq_some_iff.mp h).imp fun _ h => h.1

/-! ### Directories that are added -/

/-- A node that may have got more entries. -/
inductive Grows : Node → Node → Prop
  | same (node : Node) : Grows node node
  | dir (parent : Nat) (entries more : List (Name × Nat)) : Grows (.dir parent entries) (.dir parent (entries ++ more))

/-- Nothing is taken away or changed, and what is new is directories. -/
structure Extends (fs fs' : FileSystem) : Prop where
  kept : ∀ (i : Nat) (node : Node), fs.nodes[i]? = some node → ∃ node', fs'.nodes[i]? = some node' ∧ Grows node node'
  made : ∀ (i : Nat) (node : Node), fs.nodes[i]? = none → fs'.nodes[i]? = some node → ∃ parent entries, node = .dir parent entries

theorem Grows.trans {x y z : Node} (h : Grows x y) (h' : Grows y z) : Grows x z := by
  cases h with
  | same => exact h'
  | dir parent entries more =>
    cases h' with
    | same => exact .dir parent entries more
    | dir _ _ more' =>
      rw [List.append_assoc]
      exact .dir parent entries (more ++ more')

theorem Extends.refl (fs : FileSystem) : Extends fs fs :=
  ⟨fun _ node h => ⟨node, h, .same node⟩, fun i node hnone h => by rw [hnone] at h; cases h⟩

theorem Extends.trans (h : Extends fs fs') (h' : Extends fs' fs'') : Extends fs fs'' := by
  refine ⟨fun i node hnode => ?_, fun i node hnone hnode => ?_⟩
  · obtain ⟨node', hnode', hgrows⟩ := h.kept i node hnode
    obtain ⟨node'', hnode'', hgrows'⟩ := h'.kept i node' hnode'
    exact ⟨node'', hnode'', hgrows.trans hgrows'⟩
  · cases hmiddle : fs'.nodes[i]? with
    | none => exact h'.made i node hmiddle hnode
    | some node' =>
      obtain ⟨parent, entries, rfl⟩ := h.made i node' hnone hmiddle
      obtain ⟨node'', hnode'', hgrows⟩ := h'.kept i _ hmiddle
      obtain rfl := Option.some.inj (hnode.symm.trans hnode'')
      cases hgrows <;> exact ⟨_, _, rfl⟩

theorem Extends.dir? (h : Extends fs fs') {x : Nat × List (Name × Nat)} (hdir : fs.dir? d = some x) :
    ∃ more, fs'.dir? d = some (x.1, x.2 ++ more) := by
  unfold FileSystem.dir? at hdir
  cases hnode : fs.nodes[d]? with
  | none => simp [hnode] at hdir
  | some node =>
    obtain ⟨node', hnode', hgrows⟩ := h.kept d node hnode
    rw [hnode] at hdir
    cases node with
    | file | link => cases hdir
    | dir parent entries =>
      cases hdir
      cases hgrows with
      | same => exact ⟨[], by simp [FileSystem.dir?, hnode']⟩
      | dir _ _ more => exact ⟨more, by simp [FileSystem.dir?, hnode']⟩

theorem Extends.child (h : Extends fs fs') (hchild : fs.child d name = some i) : fs'.child d name = some i := by
  obtain ⟨x, hdir, hnext⟩ := Option.bind_eq_some_iff.mp hchild
  obtain ⟨more, hdir'⟩ := h.dir? hdir
  unfold FileSystem.child
  rw [hdir', Option.bind_some]
  split_ifs at hnext ⊢
  · exact hnext
  · exact hnext
  · rw [List.lookup_append, hnext]
    rfl

theorem Extends.link? (h : Extends fs fs') (i : Nat) : fs'.link? i = fs.link? i := by
  unfold FileSystem.link?
  cases hnode : fs.nodes[i]? with
  | none =>
    cases hnode' : fs'.nodes[i]? with
    | none => rfl
    | some node =>
      obtain ⟨parent, entries, rfl⟩ := h.made i node hnode hnode'
      rfl
  | some node =>
    obtain ⟨node', hnode', hgrows⟩ := h.kept i node hnode
    rw [hnode']
    cases hgrows <;> rfl

/-- What a path leads to, it leads to still. -/
theorem Extends.walk (h : Extends fs fs') (links d : Nat) (l : List Name) (hwalk : fs.walk links d l = some j) :
    fs'.walk links d l = some j := by
  induction links generalizing d l with
  | zero =>
    induction l generalizing d with
    | nil => exact walk_nil.trans (walk_nil.symm.trans hwalk)
    | cons name l ih =>
      obtain ⟨i, hchild, ⟨hlink, hrest⟩ | ⟨k, _, hzero, -⟩⟩ := walk_cons_cases hwalk
      · rw [walk_cons (h.child hchild) ((h.link? i).trans hlink)]
        exact ih i hrest
      · cases hzero
  | succ links ihLinks =>
    induction l generalizing d with
    | nil => exact walk_nil.trans (walk_nil.symm.trans hwalk)
    | cons name l ih =>
      obtain ⟨i, hchild, ⟨hlink, hrest⟩ | ⟨k, target, hk, hlink, hrest⟩⟩ := walk_cons_cases hwalk
      · rw [walk_cons (h.child hchild) ((h.link? i).trans hlink)]
        exact ih i hrest
      · obtain rfl := Nat.succ.inj hk
        rw [walk_link (h.child hchild) ((h.link? i).trans hlink)]
        exact ihLinks _ _ hrest

theorem Extends.resolve (h : Extends fs fs') (hresolve : fs.resolve cwd path l = some i) : fs'.resolve cwd path l = some i :=
  h.walk _ _ _ hresolve

theorem Extends.access (h : Extends fs fs') (haccess : fs.access cwd path = true) : fs'.access cwd path = true := by
  obtain ⟨hne, hsome⟩ := Bool.and_eq_true_iff.mp haccess
  obtain ⟨i, hi⟩ := Option.isSome_iff_exists.mp hsome
  exact Bool.and_eq_true_iff.mpr ⟨hne, Option.isSome_iff_exists.mpr ⟨i, h.resolve hi⟩⟩

theorem Extends.lstat (h : Extends fs fs') (hlstat : fs.lstat cwd path = true) : fs'.lstat cwd path = true := by
  unfold FileSystem.lstat at hlstat ⊢
  cases hlast : (components path).getLast? with
  | none => simpa [hlast] using hlstat
  | some name =>
    simp only [hlast] at hlstat ⊢
    obtain ⟨i, hi⟩ := Option.isSome_iff_exists.mp hlstat
    obtain ⟨d, hd, hchild⟩ := Option.bind_eq_some_iff.mp hi
    rw [h.resolve hd, Option.bind_some, h.child hchild]
    rfl

/-! ### `mkdir` -/

theorem mkdir_cases (h : fs.mkdir cwd path = some fs') :
    ∃ init name d x, names [] path = init ++ [name] ∧ fs.resolve cwd path init = some d ∧ fs.child d name = none ∧
      fs.dir? d = some x ∧ fs' = fs.addDir d name x.1 x.2 := by
  unfold mkdir at h
  cases hlast : (names [] path).getLast? with
  | none => simp [hlast] at h
  | some name =>
    simp only [hlast] at h
    obtain ⟨d, hd, h⟩ := Option.bind_eq_some_iff.mp h
    obtain ⟨hfree, h⟩ := Option.ite_none_left_eq_some.mp h
    obtain ⟨x, hx, rfl⟩ := Option.map_eq_some_iff.mp h
    refine ⟨_, name, d, x, (List.dropLast_append_getLast? name hlast).symm, hd, ?_, hx, rfl⟩
    simpa using fun hsome => hfree (.inl hsome)

theorem dir?_addDir (d : Nat) (name : Name) (parent : Nat) (entries : List (Name × Nat)) (hd : d < fs.nodes.length) :
    (fs.addDir d name parent entries).dir? d = some (parent, entries ++ [(name, fs.nodes.length)]) := by
  simp [dir?, addDir, List.getElem?_append_left, hd]

theorem dir?_addDir_new (d : Nat) (name : Name) (parent : Nat) (entries : List (Name × Nat)) :
    (fs.addDir d name parent entries).dir? fs.nodes.length = some (d, []) := by
  simp [dir?, addDir]

theorem node_of_dir? {x : Nat × List (Name × Nat)} (h : fs.dir? d = some x) : fs.nodes[d]? = some (.dir x.1 x.2) := by
  unfold dir? at h
  cases hnode : fs.nodes[d]? with
  | none => simp [hnode] at h
  | some node =>
    rw [hnode] at h
    cases node with
    | file | link => cases h
    | dir => cases h; rfl

theorem extends_addDir {x : Nat × List (Name × Nat)} (h : fs.dir? d = some x) (name : Name) :
    Extends fs (fs.addDir d name x.1 x.2) := by
  have hnode := node_of_dir? h
  obtain ⟨hd, -⟩ := List.getElem?_eq_some_iff.mp hnode
  refine ⟨fun i node hi => ?_, fun i node hnone hi => ?_⟩
  · obtain ⟨hlt, -⟩ := List.getElem?_eq_some_iff.mp hi
    have hnew : (fs.addDir d name x.1 x.2).nodes[i]? = (fs.nodes.set d (.dir x.1 (x.2 ++ [(name, fs.nodes.length)])))[i]? :=
      List.getElem?_append_left (by rwa [List.length_set])
    rw [hnew]
    by_cases heq : d = i
    · obtain rfl := heq
      obtain rfl := Option.some.inj (hnode.symm.trans hi)
      exact ⟨_, List.getElem?_set_self hd, .dir _ _ _⟩
    · exact ⟨node, (List.getElem?_set_ne heq).trans hi, .same node⟩
  · have hge : fs.nodes.length ≤ i := List.getElem?_eq_none_iff.mp hnone
    have hnew : (fs.addDir d name x.1 x.2).nodes[i]? = [Node.dir d []][i - fs.nodes.length]? := by
      rw [addDir, List.getElem?_append_right (by rwa [List.length_set]), List.length_set]
    rw [hnew] at hi
    exact ⟨d, [], List.mem_singleton.mp (List.mem_of_getElem? hi)⟩

theorem Extends.of_mkdir (h : fs.mkdir cwd path = some fs') : Extends fs fs' := by
  obtain ⟨_, name, d, x, -, -, -, hx, rfl⟩ := mkdir_cases h
  exact extends_addDir hx name

theorem nodes_mkdir (h : fs.mkdir cwd path = some fs') : fs'.nodes.length = fs.nodes.length + 1 := by
  obtain ⟨_, name, d, x, -, -, -, -, rfl⟩ := mkdir_cases h
  simp [addDir]

theorem child_addDir {x : Nat × List (Name × Nat)} (hdir : fs.dir? d = some x) (hnone : fs.child d name = none) :
    (fs.addDir d name x.1 x.2).child d name = some fs.nodes.length := by
  obtain ⟨hd, -⟩ := List.getElem?_eq_some_iff.mp (node_of_dir? hdir)
  rw [FileSystem.child, hdir, Option.bind_some] at hnone
  rw [FileSystem.child, dir?_addDir d name x.1 x.2 hd, Option.bind_some]
  split_ifs at hnone ⊢
  rw [List.lookup_append, hnone]
  simp

/-- The new directory is where the path leads to. -/
theorem resolve_mkdir (h : fs.mkdir cwd path = some fs') : fs'.resolve cwd path (components path) = some fs.nodes.length := by
  obtain ⟨init, name, d, x, hnames, hinit, hnone, hx, rfl⟩ := mkdir_cases h
  have hnew : (fs.addDir d name x.1 x.2).dir? fs.nodes.length = some (d, []) := dir?_addDir_new d name x.1 x.2
  obtain ⟨k, hk⟩ := walk_split _ _ _ ((extends_addDir hx name).resolve hinit)
  have hlast : ∀ l, (fs.addDir d name x.1 x.2).walk k d (name :: l) = (fs.addDir d name x.1 x.2).walk k fs.nodes.length l :=
    fun l => walk_cons (child_addDir hx hnone) (link?_of_dir? hnew)
  rw [FileSystem.resolve, components, hnames, List.append_assoc, hk, List.singleton_append, hlast]
  split
  · rw [walk_cons (by rw [FileSystem.child, hnew, Option.bind_some, if_pos rfl]) (link?_of_dir? hnew), walk_nil]
  · exact walk_nil

theorem access_mkdir (h : fs.mkdir cwd path = some fs') : fs'.access cwd path = true := by
  have hne : path ≠ [] := by
    rintro rfl
    cases h
  rw [FileSystem.access, resolve_mkdir h, decide_eq_true hne]
  rfl

theorem lstat_of_access (h : fs.access cwd path = true) : fs.lstat cwd path = true := by
  obtain ⟨hne, hsome⟩ := Bool.and_eq_true_iff.mp h
  unfold FileSystem.lstat
  cases hlast : (components path).getLast? with
  | none => exact hne
  | some name =>
    obtain ⟨j, hj⟩ := Option.isSome_iff_exists.mp hsome
    rw [FileSystem.resolve, ← List.dropLast_append_getLast? name hlast] at hj
    obtain ⟨i, k, hi, hlast⟩ := walk_append _ _ _ _ hj
    obtain ⟨j, hchild, -⟩ := walk_cons_cases hlast
    simp only
    rw [FileSystem.resolve, hi, Option.bind_some, hchild]
    rfl

end FileSystem

/-! ### Paths -/

theorem names_append (name : Name) (s t : List UInt8) : names name (s ++ 47 :: t) = names name s ++ names [] t := by
  induction s generalizing name with
  | nil => rfl
  | cons c s ih =>
    simp only [List.cons_append, names]
    split
    · rw [ih, List.append_assoc]
    · exact ih _

theorem names_eq_nil (name : Name) (s : List UInt8) (h : names name s = []) : name = [] ∧ ∀ c ∈ s, c = 47 := by
  have hended : ∀ name : Name, ended name = [] → name = [] := by
    intro name hname
    unfold ended at hname
    split at hname
    · assumption
    · cases hname
  induction s generalizing name with
  | nil => exact ⟨hended name h, nofun⟩
  | cons c s ih =>
    simp only [names] at h
    split at h
    · obtain ⟨hname, hrest⟩ := List.append_eq_nil_iff.mp h
      exact ⟨hended name hname, List.forall_mem_cons.mpr ⟨‹_›, (ih [] hrest).2⟩⟩
    · exact absurd (ih _ h).1 (List.append_ne_nil_of_right_ne_nil _ nofun)

/-- What a path needs, the part of it before a slash needs. -/
theorem FileSystem.access_before {fs : FileSystem} {cwd : Nat} {q rest : List UInt8} (hq : q ≠ [])
    (h : fs.access cwd (q ++ 47 :: rest) = true) : fs.access cwd q = true := by
  obtain ⟨-, hsome⟩ := Bool.and_eq_true_iff.mp h
  obtain ⟨j, hj⟩ := Option.isSome_iff_exists.mp hsome
  have hstart : start (q ++ 47 :: rest) cwd = start q cwd := by
    unfold start
    rw [List.head?_append_of_ne_nil _ hq]
  rw [resolve, hstart, components, names_append, List.append_assoc] at hj
  obtain ⟨i, k, hi, hrest⟩ := walk_append _ _ _ _ hj
  obtain ⟨k', hk'⟩ := walk_split _ _ _ hi
  suffices hgoal : fs.resolve cwd q (components q) = some i by
    rw [access, hgoal, decide_eq_true hq]
    rfl
  rw [resolve, components]
  by_cases hslash : q.getLast? = some 47 ∧ names [] q ≠ []
  · rw [if_pos hslash, hk']
    -- there is more behind the slash, be it a dot, so the part before it is a directory
    obtain ⟨name, l, hl⟩ : ∃ name l, names [] rest ++ (if (q ++ 47 :: rest).getLast? = some 47 ∧
        names [] q ++ names [] rest ≠ [] then [dot] else []) = name :: l := by
      cases hnames : names [] rest with
      | cons name l => exact ⟨name, _, rfl⟩
      | nil =>
        have hall := (names_eq_nil [] rest hnames).2
        have hlast : (q ++ 47 :: rest).getLast? = some 47 := by
          rw [List.getLast?_append_of_ne_nil _ (List.cons_ne_nil _ _), List.getLast?_eq_getLast_of_ne_nil (List.cons_ne_nil _ _)]
          exact congrArg some ((List.mem_cons.mp (List.getLast_mem (List.cons_ne_nil 47 rest))).elim id (hall _))
        exact ⟨dot, [], by rw [if_pos ⟨hlast, by simpa using hslash.2⟩]; rfl⟩
    rw [hl] at hrest
    obtain ⟨_, hchild, -⟩ := walk_cons_cases hrest
    obtain ⟨x, hdir⟩ := dir?_of_child hchild
    rw [walk_cons (by rw [child, hdir, Option.bind_some, if_pos rfl]) (link?_of_dir? hdir), walk_nil]
  · rw [if_neg hslash, List.append_nil]
    exact hi

end Lib.FileTree
