import MyHttp.Env
import Mathlib.Data.List.Basic

/-! The arguments are accepted just when they are options: keys with a dash, each with at most one value behind it. What is
    then found for a key is the value of its last option. -/

namespace MyHttp

open Lib.CString

/-- An option as it is given. -/
structure CommandOption where
  key : Bytes
  value : Option Bytes
  nonempty : key ≠ []
  noDash : ∀ v ∈ value, v.head? ≠ some 45

namespace CommandOption

def words (o : CommandOption) : List Bytes := (45 :: o.key) :: o.value.toList

/-- The value that is kept for it. -/
def kept (o : CommandOption) : Bytes := o.value.getD []

end CommandOption

/-- The arguments that some options are given as. -/
def commandLine (os : List CommandOption) : List Bytes := os.flatMap CommandOption.words

/-- The options with a key. -/
def named (key : Bytes) (os : List CommandOption) : List CommandOption := os.filter fun o => o.key = key

namespace Env

variable {s t : Env} {argv rest : List Bytes} {os : List CommandOption} {key : Bytes} {now : Option Bytes}

/-- Options in their order. -/
def addAll (s : Env) (os : List CommandOption) : Env := os.foldl (fun s o => s.add o.key o.kept) s

/-- The words at which the loop gives up: a dash alone, also behind a key, or a value without a key. -/
inductive Bad : List Bytes → Prop
  | dash {rest : List Bytes} : Bad ([45] :: rest)
  | keyed {key : Bytes} {rest : List Bytes} : key ≠ [] → Bad ((45 :: key) :: [45] :: rest)
  | value {v : Bytes} {rest : List Bytes} : v.head? ≠ some 45 → Bad (v :: rest)

theorem parse_key (hkey : key ≠ []) : s.parse now ((45 :: key) :: argv) = (s.flush now).parse (some key) argv := by
  have hlen : (45 :: key).length > 1 := by
    rw [List.length_cons]
    exact Nat.succ_lt_succ (List.length_pos_iff.mpr hkey)
  have hone : s.parse now ((45 :: key) :: argv) =
      if (45 :: key).length > 1 then (s.flush now).parse (some key) argv else (s, false) := rfl
  rw [hone, if_pos hlen]

theorem parse_dash : s.parse now ([45] :: argv) = (s, false) := rfl

theorem parse_value {v : Bytes} (h : v.head? ≠ some 45) : s.parse (some key) (v :: argv) = (s.add key v).parse none argv := by
  simp only [parse, if_neg h]

theorem parse_none {v : Bytes} (h : v.head? ≠ some 45) : s.parse none (v :: argv) = (s, false) := by
  simp only [parse, if_neg h]

/-- A word is a dash alone, a key or a value. -/
theorem word_cases (arg : Bytes) : arg = [45] ∨ (∃ key, key ≠ [] ∧ arg = 45 :: key) ∨ arg.head? ≠ some 45 := by
  cases arg with
  | nil => exact .inr (.inr nofun)
  | cons c key =>
    by_cases hc : c = 45
    · subst hc
      by_cases hkey : key = []
      · exact .inl (by rw [hkey])
      · exact .inr (.inl ⟨key, hkey, rfl⟩)
    · exact .inr (.inr fun h => hc (Option.some.inj h))

/-- Options are accepted, whatever key still waits for a value. -/
theorem parse_commandLine (os : List CommandOption) : s.parse now (commandLine os) = ((s.flush now).addAll os, true) := by
  induction os generalizing s now with
  | nil => rfl
  | cons o os ih =>
    obtain ⟨key, value, hkey, hvalue⟩ := o
    cases value with
    | none => exact (parse_key hkey).trans ih
    | some v =>
      have hnext : (s.flush now).parse (some key) (v :: commandLine os) = ((s.flush now).add key v).parse none (commandLine os) :=
        parse_value (hvalue v rfl)
      exact (parse_key hkey).trans (hnext.trans ih)

/-- Every list of words is options up to its end, or up to a bad word; these options are kept. -/
theorem parse_split (s : Env) (argv : List Bytes) : ∃ os rest, argv = commandLine os ++ rest ∧ (rest = [] ∨ Bad rest) ∧
    s.parse none argv = (s.addAll os, decide (rest = [])) := by
  induction hn : argv.length using Nat.strongRecOn generalizing s argv with
  | ind n ih =>
    have hstop : ∀ rest, Bad rest → argv = rest → s.parse none rest = (s, false) →
        ∃ os rest, argv = commandLine os ++ rest ∧ (rest = [] ∨ Bad rest) ∧ s.parse none argv = (s.addAll os, decide (rest = [])) := by
      intro rest hbad heq hparse
      have hne : rest ≠ [] := fun hnil => by rw [hnil] at hbad; cases hbad
      exact ⟨[], rest, heq, .inr hbad, by rw [heq, hparse, decide_eq_false hne]; rfl⟩
    -- an option in front, and the words behind it
    have hgo : ∀ (o : CommandOption) (rest : List Bytes), argv = o.words ++ rest →
        s.parse none argv = (s.add o.key o.kept).parse none rest →
        ∃ os rest, argv = commandLine os ++ rest ∧ (rest = [] ∨ Bad rest) ∧ s.parse none argv = (s.addAll os, decide (rest = [])) := by
      intro o rest heq hparse
      have hlt : rest.length < n := by
        rw [← hn, heq, List.length_append, CommandOption.words, List.length_cons]
        omega
      obtain ⟨os, rest', hrest, hend, hall⟩ := ih rest.length hlt (s.add o.key o.kept) rest rfl
      refine ⟨o :: os, rest', ?_, hend, by rw [hparse, hall]; rfl⟩
      rw [heq, hrest, commandLine, commandLine, List.flatMap_cons, List.append_assoc]
    cases argv with
    | nil => exact ⟨[], [], rfl, .inl rfl, rfl⟩
    | cons arg argv =>
      rcases word_cases arg with rfl | ⟨key, hkey, rfl⟩ | hvalue
      · exact hstop _ .dash rfl parse_dash
      · have hfirst : s.parse none ((45 :: key) :: argv) = s.parse (some key) argv := parse_key hkey
        cases argv with
        | nil => exact hgo ⟨key, none, hkey, nofun⟩ [] rfl hfirst
        | cons next argv =>
          rcases word_cases next with rfl | ⟨key', hkey', rfl⟩ | hvalue
          · exact hstop _ (.keyed hkey) rfl hfirst
          · refine hgo ⟨key, none, hkey, nofun⟩ _ rfl (hfirst.trans ?_)
            rw [parse_key hkey', parse_key hkey']
            rfl
          · refine hgo ⟨key, some next, hkey, fun v hv => ?_⟩ argv rfl (hfirst.trans (parse_value hvalue))
            cases hv
            exact hvalue
      · exact hstop _ (.value hvalue) rfl (parse_none hvalue)

/-! ### What is found for a key -/

theorem args_addAll (s : Env) (os : List CommandOption) (key : Bytes) :
    (s.addAll os).args key = ((named key os).getLast?.map CommandOption.kept).or (s.args key) := by
  induction os generalizing s with
  | nil => rfl
  | cons o os ih =>
    have hstep : (s.addAll (o :: os)).args key = ((s.add o.key o.kept).addAll os).args key := rfl
    rw [hstep, ih]
    by_cases hkey : o.key = key
    · have hnamed : named key (o :: os) = o :: named key os := by simp [named, hkey]
      have hadd : (s.add o.key o.kept).args key = some o.kept := by rw [hkey]; exact Function.update_self ..
      rw [hnamed, hadd]
      cases hlast : (named key os).getLast? <;> simp [List.getLast?_cons, hlast]
    · have hnamed : named key (o :: os) = named key os := by simp [named, hkey]
      have hadd : (s.add o.key o.kept).args key = s.args key := Function.update_of_ne (Ne.symm hkey) _ _
      rw [hnamed, hadd]

theorem same_addAll (s : Env) (os : List CommandOption) :
    (s.addAll os).cwd = s.cwd ∧ (s.addAll os).exe = s.exe ∧ (s.addAll os).helps = s.helps ∧ (s.addAll os).program = s.program := by
  induction os generalizing s with
  | nil => exact ⟨rfl, rfl, rfl, rfl⟩
  | cons o os ih => exact ih (s.add o.key o.kept)

/-! ### The arguments -/

variable (exe program : Bytes)

theorem init_eq (argv : List Bytes) :
    s.init (some exe) program argv = Env.parse { s with exe, cwd := directory exe, program } none argv := rfl

theorem init_commandLine (os : List CommandOption) :
    s.init (some exe) program (commandLine os) = (Env.addAll { s with exe, cwd := directory exe, program } os, true) := by
  rw [init_eq, parse_commandLine]
  rfl

theorem get_commandLine (s : Env) (os : List CommandOption) (key default_value : Bytes) :
    (s.init (some exe) program (commandLine os)).1.get key default_value =
      ((named key os).getLast?.map CommandOption.kept).getD (s.get key default_value) := by
  rw [init_commandLine, get, args_addAll, get]
  cases (named key os).getLast? <;> rfl

theorem has_commandLine (s : Env) (os : List CommandOption) (key : Bytes) :
    (s.init (some exe) program (commandLine os)).1.has key = (!(named key os).isEmpty || s.has key) := by
  rw [init_commandLine, has, args_addAll, has]
  cases hnamed : named key os with
  | nil => rfl
  | cons o os' => simp [List.getLast?_cons]

/-- The arguments are split where they stop being options. -/
theorem init_split (s : Env) (argv : List Bytes) : ∃ os rest, argv = commandLine os ++ rest ∧ (rest = [] ∨ Bad rest) ∧
    (s.init (some exe) program argv).2 = decide (rest = []) ∧ ∀ key, (s.init (some exe) program argv).1.args key =
      ((named key os).getLast?.map CommandOption.kept).or (s.args key) := by
  rw [init_eq]
  obtain ⟨os, rest, heq, hend, hparse⟩ := parse_split { s with exe, cwd := directory exe, program } argv
  exact ⟨os, rest, heq, hend, by rw [hparse], fun key => by rw [hparse, args_addAll]⟩

theorem commandLine_of_init {argv : List Bytes} (h : (s.init (some exe) program argv).2 = true) :
    ∃ os, argv = commandLine os := by
  obtain ⟨os, rest, heq, -, haccepted, -⟩ := init_split exe program s argv
  have hnil : rest = [] := of_decide_eq_true (haccepted.symm.trans h)
  exact ⟨os, by rw [heq, hnil, List.append_nil]⟩

end Env

/-! ### The application -/

namespace Application

variable {os : List CommandOption}

/-- The options ask for a server: not for the help text, and for one of the two ways to run. -/
def Runs (os : List CommandOption) : Prop :=
  named (ascii "p") os = [] ∧ (named (ascii "s") os ≠ [] ∨ named (ascii "d") os ≠ [])

/-- The directory of the configuration: that of the last `-c`, or `conf`, and relative to the executable. -/
def confPath (exe : Bytes) (os : List CommandOption) : Bytes :=
  getAbsolutePath (Env.directory exe) (((named (ascii "c") os).getLast?.map CommandOption.kept).getD (ascii "conf"))

theorem has_init (exe program : Bytes) (os : List CommandOption) (key : Bytes) :
    ((addHelps .new).init (some exe) program (commandLine os)).1.has key = !(named key os).isEmpty := by
  rw [Env.has_commandLine]
  exact Bool.or_false _

theorem get_init (exe program : Bytes) (os : List CommandOption) (key default_value : Bytes) :
    ((addHelps .new).init (some exe) program (commandLine os)).1.get key default_value =
      ((named key os).getLast?.map CommandOption.kept).getD default_value :=
  Env.get_commandLine exe program _ os key default_value

theorem cwd_init (exe program : Bytes) (os : List CommandOption) :
    ((addHelps .new).init (some exe) program (commandLine os)).1.cwd = Env.directory exe := by
  rw [Env.init_commandLine]
  exact (Env.same_addAll _ os).1

/-- The application loads its configuration and makes its directory just when the arguments are options that ask for a
    server and none is running; which directory that is, and whether it becomes a daemon, the options say. -/
theorem init_starts (world : AppWorld) (program : Bytes) (argv : List Bytes) :
    ((∃ path, .loadFromConfDir path ∈ (init world .new program argv).2.1) ↔
      ∃ exe os, world.link = some exe ∧ argv = commandLine os ∧ Runs os ∧
        world.isRunningPidfile (world.workPath ++ ascii "/" ++ world.pidFile) = false) ∧
    (∀ exe os, world.link = some exe → argv = commandLine os → Runs os →
      world.isRunningPidfile (world.workPath ++ ascii "/" ++ world.pidFile) = false →
      (init world .new program argv).2 =
          ([.loadFromConfDir (confPath exe os), .mkdir (world.loaded (confPath exe os))],
            world.mkdir (world.loaded (confPath exe os))) ∧
        (isDaemon (init world .new program argv).1 = true ↔ named (ascii "d") os ≠ [])) := by
  have hruns : ∀ exe os, world.link = some exe → argv = commandLine os → Runs os →
      world.isRunningPidfile (world.workPath ++ ascii "/" ++ world.pidFile) = false →
      init world .new program argv = (((addHelps .new).init (some exe) program argv).1,
        [.loadFromConfDir (confPath exe os), .mkdir (world.loaded (confPath exe os))],
        world.mkdir (world.loaded (confPath exe os))) := by
    rintro exe os hlink rfl ⟨hhelp, hways⟩ hpid
    have hparsed : (addHelps .new).init (some exe) program (commandLine os) =
        (((addHelps .new).init (some exe) program (commandLine os)).1, true) :=
      Prod.ext rfl (by rw [Env.init_commandLine])
    have htype : runType ((addHelps .new).init (some exe) program (commandLine os)).1 ≠ 0 := by
      rw [runType, has_init, has_init]
      rcases hways with hway | hway <;> simp [hway]
      split <;> decide
    rw [init, hlink, hparsed]
    dsimp only
    rw [if_neg (by rw [has_init, hhelp]; decide), if_neg htype, if_neg (by rw [hpid]; decide), get_init, cwd_init]
    rfl
  refine ⟨⟨?_, ?_⟩, fun exe os hlink hargs hway hpid => ?_⟩
  · rintro ⟨path, hpath⟩
    unfold init at hpath
    split at hpath
    · simp at hpath
    · rename_i env hinit
      split at hpath
      · simp at hpath
      · split at hpath
        · simp at hpath
        · split at hpath
          · simp at hpath
          · rename_i hhelp htype hpid
            cases hlink : world.link with
            | none =>
              rw [hlink] at hinit
              cases (Prod.mk.inj hinit).2
            | some exe =>
              rw [hlink] at hinit
              obtain ⟨os, rfl⟩ := Env.commandLine_of_init exe program (by rw [hinit])
              have henv : ((addHelps .new).init (some exe) program (commandLine os)).1 = env := by rw [hinit]
              refine ⟨exe, os, rfl, rfl, ⟨?_, ?_⟩, Bool.eq_false_iff.mpr hpid⟩
              · rw [← henv, has_init] at hhelp
                simpa using hhelp
              · rw [← henv, runType, has_init, has_init] at htype
                by_contra hnone
                obtain ⟨hs, hd⟩ := not_or.mp hnone
                rw [not_not.mp hs, not_not.mp hd] at htype
                exact htype rfl
  · rintro ⟨exe, os, hlink, hargs, hway, hpid⟩
    exact ⟨confPath exe os, by rw [hruns exe os hlink hargs hway hpid]; exact List.mem_cons_self⟩
  · rw [hruns exe os hlink hargs hway hpid]
    refine ⟨rfl, ?_⟩
    subst hargs
    rw [isDaemon, has_init]
    cases named (ascii "d") os <;> simp

end Application
end MyHttp
