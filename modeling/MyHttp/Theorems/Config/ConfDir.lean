import MyHttp.Config.ConfDir
import Mathlib.Data.List.Find

/-! What `LoadFromConfDir` loads again. Nothing is ever stored in `s_file2modifytime` but the zeros that a lookup inserts,
    so that a file is loaded whenever its modification time is not zero. -/

namespace MyHttp

open Lib.CString

namespace FSUtil

variable {path subfix filename file : Bytes} {entries : List Dirent}

theorem hasSubfix_iff : hasSubfix subfix filename = true ↔ subfix <:+ filename := by
  unfold hasSubfix
  split
  case isTrue hnil => simp only [hnil, List.nil_suffix]
  case isFalse =>
    split
    case isTrue hlt =>
      refine iff_of_false Bool.false_ne_true fun hsuffix => ?_
      exact Nat.not_lt.mpr hsuffix.length_le hlt
    case isFalse => rw [decide_eq_true_iff, List.suffix_iff_eq_drop, eq_comm]

/-- A regular file below a directory: the directories on the way, and its name. -/
inductive Below : List Dirent → List Bytes → Bytes → Prop
  | here {entries : List Dirent} {filename : Bytes} : .reg filename ∈ entries → Below entries [] filename
  | inside {entries inner : List Dirent} {name filename : Bytes} {names : List Bytes} :
      .dir name inner ∈ entries → name ≠ ascii "." → name ≠ ascii ".." → Below inner names filename →
        Below entries (name :: names) filename

theorem below_iff {names : List Bytes} : Below entries names filename ↔ ∃ dp ∈ entries, Below [dp] names filename := by
  constructor
  · intro h
    cases h with
    | here hmem => exact ⟨_, hmem, .here (List.mem_singleton_self _)⟩
    | inside hmem hdot hdots hinner => exact ⟨_, hmem, .inside (List.mem_singleton_self _) hdot hdots hinner⟩
  · rintro ⟨dp, hmem, h⟩
    cases h with
    | here heq => exact .here (List.mem_singleton.mp heq ▸ hmem)
    | inside heq hdot hdots hinner => exact .inside (List.mem_singleton.mp heq ▸ hmem) hdot hdots hinner

/-- A file that is listed. -/
def Listed (path subfix : Bytes) (entries : List Dirent) (file : Bytes) : Prop :=
  ∃ names filename, Below entries names filename ∧ subfix <:+ filename ∧ file = join (names.foldl join path) filename

theorem listed_iff (entries : List Dirent) :
    Listed path subfix entries file ↔ ∃ dp ∈ entries, Listed path subfix [dp] file := by
  constructor
  · rintro ⟨names, filename, hbelow, hfile⟩
    obtain ⟨dp, hmem, hentry⟩ := below_iff.mp hbelow
    exact ⟨dp, hmem, names, filename, hentry, hfile⟩
  · rintro ⟨dp, hmem, names, filename, hentry, hfile⟩
    exact ⟨names, filename, below_iff.mpr ⟨dp, hmem, hentry⟩, hfile⟩

theorem listed_reg : Listed path subfix [.reg filename] file ↔ subfix <:+ filename ∧ file = join path filename := by
  constructor
  · rintro ⟨names, last, hbelow, hfile⟩
    cases hbelow with
    | here hmem =>
      cases List.mem_singleton.mp hmem
      exact hfile
    | inside hmem => cases List.mem_singleton.mp hmem
  · exact fun hfile => ⟨[], filename, .here (List.mem_singleton_self _), hfile⟩

theorem listed_dir {name : Bytes} : Listed path subfix [.dir name entries] file ↔
    ¬(name = ascii "." ∨ name = ascii "..") ∧ Listed (join path name) subfix entries file := by
  constructor
  · rintro ⟨names, last, hbelow, hfile⟩
    cases hbelow with
    | here hmem => cases List.mem_singleton.mp hmem
    | inside hmem hdot hdots hinner =>
      cases List.mem_singleton.mp hmem
      exact ⟨not_or.mpr ⟨hdot, hdots⟩, _, last, hinner, hfile⟩
  · rintro ⟨hnot, names, last, hinner, hfile⟩
    obtain ⟨hdot, hdots⟩ := not_or.mp hnot
    exact ⟨name :: names, last, .inside (List.mem_singleton_self _) hdot hdots hinner, hfile⟩

theorem not_listed_other {name : Bytes} : ¬Listed path subfix [.other name] file := by
  rintro ⟨names, last, hbelow, -⟩
  cases hbelow with
  | here hmem => cases List.mem_singleton.mp hmem
  | inside hmem => cases List.mem_singleton.mp hmem

mutual

theorem mem_listEntry : ∀ (dp : Dirent) (path : Bytes), file ∈ listEntry path subfix dp ↔ Listed path subfix [dp] file
  | .reg filename, path => by
    rw [listEntry, listed_reg, ← hasSubfix_iff]
    split
    case isTrue hsuffix => rw [List.mem_singleton, and_iff_right hsuffix]
    case isFalse hsuffix => exact iff_of_false List.not_mem_nil fun h => hsuffix h.1
  | .dir name entries, path => by
    rw [listEntry, listed_dir]
    split
    case isTrue hdots => exact iff_of_false List.not_mem_nil fun h => h.1 hdots
    case isFalse hdots => rw [mem_listAllFile entries (join path name), and_iff_right hdots]
  | .other _, path => by
    rw [listEntry]
    exact iff_of_false List.not_mem_nil not_listed_other

/-- The files are the regular ones below the directory whose names end in `subfix`. -/
theorem mem_listAllFile : ∀ (entries : List Dirent) (path : Bytes),
    file ∈ listAllFile path subfix entries ↔ Listed path subfix entries file
  | [], path => by
    rw [listAllFile, listed_iff]
    exact iff_of_false List.not_mem_nil fun ⟨_, hmem, _⟩ => List.not_mem_nil hmem
  | dp :: entries, path => by
    rw [listAllFile, List.mem_append, mem_listEntry dp path, mem_listAllFile entries path, listed_iff (dp :: entries),
      List.exists_mem_cons_iff, ← listed_iff entries]

end

end FSUtil

namespace Config

/-- A file is loaded, or `YAML::LoadFile` is called in vain and `failed` says that this counts. -/
def FileLoad.counts (failed : Bool) : FileLoad → Bool
  | .unmodified => false
  | .ok => true
  | .failed => failed

/-- The modification time of a file at its last load. -/
def lastLoad (failed : Bool) (visits : List Visit) (file : Bytes) : Option Int64 :=
  (visits.reverse.find? fun v => v.file = file && v.load.counts failed).map (·.mtime)

/-- A file is loaded exactly when it has not been loaded before or has another modification time than at its last load. -/
def LoadsModified (failed : Bool) (visits : List Visit) : Prop :=
  ∀ before visit after, visits = before ++ visit :: after →
    (visit.load ≠ .unmodified ↔ lastLoad failed before visit.file ≠ some visit.mtime)

/-- A file that a call finds, with its modification time, and whether it can be loaded. -/
structure Found where
  file : Bytes
  mtime : Int64
  loadable : Bool
deriving DecidableEq, Repr

/-- What calls find, in order. -/
def found (cwd : Bytes) (dirs : List ConfDir) : List Found :=
  dirs.flatMap fun dir => (dir.files cwd).map fun i => ⟨i, dir.mtime i, (dir.loadFile i).isSome⟩

/-- The modification time with which a file was found last, where `failed` says whether those count that cannot be loaded. -/
def lastFound (failed : Bool) (files : List Found) (file : Bytes) : Option Int64 :=
  (files.reverse.find? fun f => f.file = file && (f.loadable || failed)).map (·.mtime)

/-- No file has the modification time zero, or the one with which it was found last. -/
def AlwaysModified (failed : Bool) (files : List Found) : Prop :=
  ∀ before f after, files = before ++ f :: after → f.mtime ≠ 0 ∧ lastFound failed before f.file ≠ some f.mtime

/-- What is done with a file that is found: it does not depend on what was done before. -/
def visitOf (f : Found) : Visit :=
  ⟨f.file, f.mtime, if f.mtime = 0 then .unmodified else if f.loadable then .ok else .failed⟩

variable {V : Type} {s : Confs V} {cwd : Bytes} {failed : Bool}
  {files : List Found}

/-- A call comes to the regular files below its directory whose names end in `.yml`. -/
theorem mem_files {dir : ConfDir} {file : Bytes} : file ∈ dir.files cwd ↔
    FSUtil.Listed (getAbsolutePath cwd dir.path) (ascii ".yml") (dir.entries (getAbsolutePath cwd dir.path)) file :=
  FSUtil.mem_listAllFile _ _

/-! ### Steps -/

/-- Only zeros are stored. -/
def Zeros (s : Confs V) : Prop := ∀ i time, s.file2modifytime i = some time → time = 0

theorem modifytime_spec (h : Zeros s) (i : Bytes) : (s.modifytime i).1 = 0 ∧ Zeros (s.modifytime i).2 := by
  unfold Confs.modifytime
  cases htime : s.file2modifytime i with
  | some time => exact ⟨h i time htime, h⟩
  | none =>
    refine ⟨rfl, fun j time hj => ?_⟩
    dsimp only at hj
    by_cases heq : j = i
    · subst heq
      rw [Function.update_self] at hj
      exact (Option.some.inj hj).symm
    · rw [Function.update_of_ne heq] at hj
      exact h j time hj

theorem toUInt64_eq_zero {time : Int64} : 0 = time.toUInt64 ↔ time = 0 := by
  refine ⟨fun h => ?_, fun h => h ▸ rfl⟩
  exact congrArg Int64.ofUInt64 h.symm

theorem loadConfFile_spec (emit : Yaml → Bytes) (fromString : V → Bytes → V) (h : Zeros s) (dir : ConfDir) (i : Bytes) :
    (loadConfFile emit fromString dir s i).1 = visitOf ⟨i, dir.mtime i, (dir.loadFile i).isSome⟩ ∧
      Zeros (loadConfFile emit fromString dir s i).2 := by
  obtain ⟨htime, hzeros⟩ := modifytime_spec h i
  unfold loadConfFile visitOf
  dsimp only
  rw [htime]
  by_cases hzero : dir.mtime i = 0
  · rw [if_pos (toUInt64_eq_zero.mpr hzero), if_pos hzero]
    exact ⟨rfl, hzeros⟩
  · rw [if_neg fun heq => hzero (toUInt64_eq_zero.mp heq), if_neg hzero]
    cases dir.loadFile i with
    | none => exact ⟨rfl, hzeros⟩
    | some root => exact ⟨rfl, hzeros⟩

theorem loadConfFiles_spec (emit : Yaml → Bytes) (fromString : V → Bytes → V) (h : Zeros s) (dir : ConfDir) (is : List Bytes) :
    (loadConfFiles emit fromString dir s is).1 =
        is.map (fun i => visitOf ⟨i, dir.mtime i, (dir.loadFile i).isSome⟩) ∧
      Zeros (loadConfFiles emit fromString dir s is).2 := by
  induction is generalizing s with
  | nil => exact ⟨rfl, h⟩
  | cons i is ih =>
    obtain ⟨hvisit, hzeros⟩ := loadConfFile_spec emit fromString h dir i
    obtain ⟨hvisits, hlast⟩ := ih hzeros
    refine ⟨?_, hlast⟩
    rw [List.map_cons, ← hvisit, ← hvisits]
    rfl

/-- A run of calls does with every file what depends on its modification time alone. -/
theorem loadFromConfDirs_spec (emit : Yaml → Bytes) (fromString : V → Bytes → V) (h : Zeros s) (dirs : List ConfDir) :
    (loadFromConfDirs emit fromString cwd s dirs).1 = (found cwd dirs).map visitOf ∧
      Zeros (loadFromConfDirs emit fromString cwd s dirs).2 := by
  induction dirs generalizing s with
  | nil => exact ⟨rfl, h⟩
  | cons dir dirs ih =>
    obtain ⟨hvisits, hzeros⟩ := loadConfFiles_spec emit fromString h dir (dir.files cwd)
    obtain ⟨hlater, hlast⟩ := ih hzeros
    refine ⟨?_, hlast⟩
    have hmap : (found cwd (dir :: dirs)).map visitOf =
        (dir.files cwd).map (fun i => visitOf ⟨i, dir.mtime i, (dir.loadFile i).isSome⟩) ++
          (found cwd dirs).map visitOf := by
      rw [found, List.flatMap_cons, List.map_append, List.map_map]
      rfl
    rw [hmap, ← hvisits, ← hlater]
    rfl

/-! ### Runs -/

theorem visitOf_load (f : Found) : (visitOf f).load ≠ .unmodified ↔ f.mtime ≠ 0 := by
  unfold visitOf
  dsimp only
  split
  case isTrue hzero => exact iff_of_false (fun h => h rfl) (fun h => h hzero)
  case isFalse hzero =>
    refine iff_of_true ?_ hzero
    split <;> exact FileLoad.noConfusion

/-- What was loaded has a modification time. -/
theorem lastLoad_ne_zero {file : Bytes} {time : Int64} (h : lastLoad failed (files.map visitOf) file = some time) :
    time ≠ 0 := by
  obtain ⟨visit, hvisit, rfl⟩ := Option.map_eq_some_iff.mp h
  have hfound := List.find?_some hvisit
  have hcounts := (Bool.and_eq_true_iff.mp hfound).2
  obtain ⟨f, -, rfl⟩ := List.mem_map.mp (List.mem_reverse.mp (List.mem_of_find?_eq_some hvisit))
  refine (visitOf_load f).mp fun hload => ?_
  rw [hload] at hcounts
  cases hcounts

theorem lastLoad_map (h : ∀ f ∈ files, f.mtime ≠ 0) (file : Bytes) :
    lastLoad failed (files.map visitOf) file = lastFound failed files file := by
  have hcounts : ∀ f ∈ files.reverse, (decide ((visitOf f).file = file) && (visitOf f).load.counts failed) =
      (decide (f.file = file) && (f.loadable || failed)) := by
    intro f hf
    have hload : (visitOf f).load.counts failed = (f.loadable || failed) := by
      unfold visitOf
      dsimp only
      rw [if_neg (h f (List.mem_reverse.mp hf))]
      cases f.loadable <;> rfl
    rw [hload]
    rfl
  unfold lastLoad lastFound
  rw [← List.map_reverse, List.find?_map, Option.map_map]
  exact congrArg (Option.map _) (List.find?_congr hcounts)

/-- A call loads exactly the files that are new or modified, in every run, if and only if every file that is found is so and
    has a modification time. -/
theorem loadsModified_iff (emit : Yaml → Bytes) (fromString : V → Bytes → V) (failed : Bool) (cwd : Bytes)
    (datas : Bytes → Option V) (dirs : List ConfDir) :
    LoadsModified failed (loadFromConfDirs emit fromString cwd ⟨fun _ => none, datas⟩ dirs).1 ↔
      AlwaysModified failed (found cwd dirs) := by
  have hzeros : Zeros ⟨fun _ => none, datas⟩ := fun _ _ h => by cases h
  rw [(loadFromConfDirs_spec emit fromString hzeros dirs).1]
  generalize found cwd dirs = files
  constructor
  · intro hlaw
    have hsplit : ∀ before f after, files = before ++ f :: after →
        (f.mtime ≠ 0 ↔ lastLoad failed (before.map visitOf) f.file ≠ some f.mtime) := by
      intro before f after hfiles
      rw [← visitOf_load f]
      refine hlaw (before.map visitOf) (visitOf f) (after.map visitOf) ?_
      rw [hfiles, List.map_append, List.map_cons]
    have hnonzero : ∀ f ∈ files, f.mtime ≠ 0 := by
      intro f hf hzero
      obtain ⟨before, after, hfiles⟩ := List.append_of_mem hf
      exact (hsplit before f after hfiles).mpr (fun hlast => lastLoad_ne_zero hlast hzero) hzero
    intro before f after hfiles
    have hmem : f ∈ files := by
      rw [hfiles]
      exact List.mem_append_right _ (List.mem_cons_self ..)
    have hbefore : ∀ g ∈ before, g.mtime ≠ 0 := by
      intro g hg
      refine hnonzero g ?_
      rw [hfiles]
      exact List.mem_append_left _ hg
    refine ⟨hnonzero f hmem, ?_⟩
    rw [← lastLoad_map hbefore]
    exact (hsplit before f after hfiles).mp (hnonzero f hmem)
  · intro halways before visit after hvisits
    obtain ⟨fs, gs, hfiles, rfl, hafter⟩ := List.map_eq_append_iff.mp hvisits
    obtain ⟨f, hs, rfl, rfl, rfl⟩ := List.map_eq_cons_iff.mp hafter
    have hbefore : ∀ g ∈ fs, g.mtime ≠ 0 := by
      intro g hg
      obtain ⟨before, after, hfs⟩ := List.append_of_mem hg
      refine (halways before g (after ++ f :: hs) ?_).1
      rw [hfiles, hfs, List.append_assoc, List.cons_append]
    obtain ⟨hmtime, hlast⟩ := halways fs f hs hfiles
    rw [lastLoad_map hbefore]
    exact iff_of_true ((visitOf_load f).mpr hmtime) hlast

/-- A file that is not modified is loaded by both of two calls. -/
theorem loaded_twice : ¬∀ (emit : Yaml → Bytes) (fromString : Bytes → Bytes → Bytes) (failed : Bool) (cwd : Bytes)
    (datas : Bytes → Option Bytes) (dirs : List ConfDir),
    LoadsModified failed (loadFromConfDirs emit fromString cwd ⟨fun _ => none, datas⟩ dirs).1 := by
  intro h
  let conf : ConfDir := ⟨ascii "/conf", fun _ => [.reg (ascii "log.yml")], fun _ => 1700000000, fun _ => some .null⟩
  let visit : Visit := ⟨ascii "/conf/log.yml", 1700000000, .ok⟩
  have hlaw := h (fun _ => []) (fun _ val => val) false [] (fun _ => none) [conf, conf] [visit] visit [] (by decide)
  exact hlaw.mp (by decide) (by decide)

end Config
end MyHttp
