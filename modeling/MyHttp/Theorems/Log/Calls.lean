import MyHttp.Log.Calls
import MyHttp.Lib.Run

/-! Threads that log and reconfigure loggers never block each other for good, no appender is used without a formatter, and a logger
    writes to all its appenders in one order. -/

namespace MyHttp
namespace Log
namespace Logging

open Lib Lib.Run Lib.Locks Logs

variable {s t : Logs} {held held' : List LogLock} {a : LogStep} {l : LogLock} {prog new : LogProgram} {i j : Nat}

/-! ### The order of the locks -/

/-- The manager, the loggers, the root logger, the appenders. -/
def rank : LogLock → Nat
  | .manager => 0
  | .logger i => if i = 0 then 2 else 1
  | .appender _ => 3

theorem rank_logger (i : Nat) : 1 ≤ rank (.logger i) ∧ rank (.logger i) < 3 := by
  unfold rank
  dsimp only
  split <;> decide

theorem rank_lt (l : LogLock) : rank l < 4 := by
  cases l with
  | manager => exact Nat.succ_pos 3
  | logger i => exact Nat.lt_succ_of_lt (rank_logger i).2
  | appender => exact Nat.lt_succ_self 3

/-- The locks that a step is taken with, and those that are held behind what it leads to. -/
def fits : LogStep → List LogLock → List LogLock → Prop
  | .log i _, held, held' => held' = held ∧ ∀ h ∈ held, rank h < rank (.logger i)
  | .dispatch i _, held, held' => held' = held ∧ .logger i ∈ held ∧ ∀ h ∈ held, rank h ≤ rank (.logger i)
  | .append _ i _ _, held, held' => held' = held ∧ .logger i ∈ held ∧ ∀ h ∈ held, rank h < 3
  | .write _ i _ _, held, held' => held' = held ∧ .logger i ∈ held
  | .probe _ j, held, held' | .adopt _ j, held, held' => held = .appender j :: held' ∧ ∀ h ∈ held', rank h < 3
  | .dumpAll, held, held' => held' = held ∧ ∀ h ∈ held, rank h < 1
  | .dump _, held, held' => held' = held ∧ ∀ h ∈ held, rank h < 3
  | _, held, held' => held' = held

/-- A step that goes by a turn of the logger. -/
def guards : LogStep → LogLock → Prop
  | .append _ i _ _, l | .write _ i _ _, l => l = .logger i
  | _, _ => False

/-- A step that begins a turn of the logger. -/
def renews : LogStep → LogLock → Prop
  | .dispatch i _, l => l = .logger i
  | _, _ => False

theorem fits_guards (a : LogStep) (l : LogLock) (held held' : List LogLock) (hl : guards a l) (h : fits a held held') : l ∈ held := by
  cases a <;> first | exact hl.elim | (obtain rfl := hl; first | exact h.2.1 | exact h.2)

theorem fits_shrinks (a : LogStep) (held held' : List LogLock) (h : fits a held held') (l : LogLock) (hl : l ∈ held') : l ∈ held := by
  cases a
  case probe | adopt => exact h.1 ▸ List.mem_cons_of_mem _ hl
  case log | dispatch | append | write | dumpAll | dump => exact h.1 ▸ hl
  case stamp | setLevel | setFormatter | push | remove | clear | setAppenderLevel | setAppenderFormatter | find =>
    exact Eq.mp (congrArg (l ∈ ·) h) hl

theorem ordered_locked (hrank : ∀ h ∈ held, rank h < rank l) (hfits : fits a (l :: held) (l :: held))
    (hprog : Ordered rank fits held prog) : Ordered rank fits held (locked l a ++ prog) :=
  .lock hrank (.act hfits (.unlock hprog))

theorem ordered_freshen (hrank : ∀ h ∈ held, rank h < 3) (hprog : Ordered rank fits held prog) :
    Ordered rank fits held (s.freshen j ++ prog) := by
  unfold freshen
  split
  · exact .lock hrank (.unlock (.act rfl hprog))
  · exact hprog

theorem forall_cons_logger (hrank : ∀ h ∈ held, rank h < rank (.logger i)) : ∀ h ∈ LogLock.logger i :: held, rank h ≤ rank (.logger i) :=
  List.forall_mem_cons.mpr ⟨Nat.le_refl _, fun h hh => Nat.le_of_lt (hrank h hh)⟩

/-- What a step leads to takes locks in their order. -/
theorem ordered_run (hroot : (s.loggers 0).hasRoot = false) (hfits : fits a held held') (hprog : Ordered rank fits held' prog) :
    Ordered rank fits held ((run s a).2 ++ prog) := by
  cases a with
  | log i level =>
    obtain ⟨rfl, hrank⟩ := hfits
    unfold run
    dsimp only
    split
    · exact ordered_locked hrank ⟨rfl, List.mem_cons_self, forall_cons_logger hrank⟩ hprog
    · exact hprog
  | dispatch i level =>
    obtain ⟨rfl, hmem, hrank⟩ := hfits
    have hthree : ∀ h ∈ held', rank h < 3 := fun h hh => Nat.lt_of_le_of_lt (hrank h hh) (rank_logger i).2
    unfold run
    dsimp only
    split
    · induction (s.loggers i).appenders with
      | nil => exact hprog
      | cons j appenders ih => exact .act ⟨rfl, hmem, hthree⟩ ih
    · split
      case isTrue hhas =>
        have hi : i ≠ 0 := fun hi => by
          rw [hi, hroot] at hhas
          cases hhas
        refine .act ⟨rfl, fun h hh => Nat.lt_of_le_of_lt (hrank h hh) ?_⟩ hprog
        rw [rank, rank, if_neg hi, if_pos rfl]
        decide
      case isFalse => exact hprog
  | append j i turn level =>
    obtain ⟨rfl, hmem, hrank⟩ := hfits
    unfold run
    dsimp only
    split
    · rw [List.append_assoc]
      exact ordered_freshen hrank (ordered_locked hrank ⟨rfl, List.mem_cons_of_mem _ hmem⟩ hprog)
    · exact hprog
  | write j i turn level =>
    obtain ⟨rfl, -⟩ := hfits
    unfold run
    dsimp only
    split <;> exact hprog
  | probe i j =>
    obtain ⟨rfl, hrank⟩ := hfits
    unfold run
    dsimp only
    split
    · exact .unlock (.lock hrank (.act ⟨rfl, hrank⟩ hprog))
    · exact .unlock (.act rfl hprog)
  | adopt i j =>
    obtain ⟨rfl, -⟩ := hfits
    exact .unlock (.act rfl hprog)
  | find name =>
    obtain rfl : held' = held := hfits
    unfold run
    dsimp only
    split <;> exact hprog
  | dumpAll =>
    obtain ⟨rfl, hrank⟩ := hfits
    unfold run
    dsimp only
    induction s.named with
    | nil => exact hprog
    | cons x named ih =>
      rw [List.flatMap_cons, List.append_assoc]
      have hlow : ∀ h ∈ held', rank h < rank (.logger x.2) := fun h hh => Nat.lt_of_lt_of_le (hrank h hh) (rank_logger x.2).1
      refine ordered_locked hlow ⟨rfl, fun h hh => ?_⟩ ih
      exact Nat.lt_of_le_of_lt (forall_cons_logger hlow h hh) (rank_logger x.2).2
  | dump i =>
    obtain ⟨rfl, hrank⟩ := hfits
    unfold run
    dsimp only
    induction (s.loggers i).appenders with
    | nil => exact hprog
    | cons j appenders ih => exact .lock hrank (.unlock ih)
  | stamp | setLevel | setFormatter | push | remove | clear | setAppenderLevel | setAppenderFormatter =>
    obtain rfl : held' = held := hfits
    exact hprog

theorem ordered_program (c : LogCall) : Ordered rank fits [] c.program := by
  have hnone : ∀ {l}, ∀ h ∈ ([] : List LogLock), rank h < rank l := nofun
  cases c with
  | log => exact .act ⟨rfl, nofun⟩ .nil
  | setLevel | setAppenderLevel => exact .act rfl .nil
  | setFormatter | delAppender | clearAppenders | setAppenderFormatter | getLogger => exact ordered_locked hnone rfl .nil
  | getFormatter | getAppenderFormatter | appenderToYamlString => exact .lock hnone (.unlock .nil)
  | addAppender i j =>
    have hlogger : ∀ h ∈ [LogLock.logger i], rank h < 3 := fun h hh => List.mem_singleton.mp hh ▸ (rank_logger i).2
    exact .lock hnone (.lock hlogger (.act ⟨rfl, hlogger⟩ (.unlock .nil)))
  | toYamlString =>
    refine ordered_locked hnone ⟨rfl, fun h hh => ?_⟩ .nil
    rw [List.mem_singleton.mp hh]
    decide
  | loggerToYamlString i => exact ordered_locked hnone ⟨rfl, fun h hh => List.mem_singleton.mp hh ▸ (rank_logger i).2⟩ .nil

/-! ### Turns -/

theorem guarded_new (hnew : ∀ x ∈ new, ∀ l, Renews renews x l → ∀ b, .act b ∈ new ++ prog → ¬guards b l)
    (hprog : Guarded guards renews prog) : Guarded guards renews (new ++ prog) := by
  induction new with
  | nil => exact hprog
  | cons x new ih =>
    refine ⟨fun l hl b hb => hnew x List.mem_cons_self l hl b (List.mem_cons_of_mem _ hb), ih fun y hy l hl b hb => ?_⟩
    exact hnew y (List.mem_cons_of_mem _ hy) l hl b (List.mem_cons_of_mem _ hb)

theorem not_guards_appender (b : LogStep) (j : Nat) : ¬guards b (.appender j) := by
  cases b <;> first | exact id | exact LogLock.noConfusion

/-- A thread has no turn of a logger that it does not hold. -/
theorem not_guards (h : Ordered rank fits held prog) (hguarded : Guarded guards renews prog) (hl : l ∉ held) {b : LogStep}
    (hb : .act b ∈ prog) : ¬guards b l :=
  fun hguards => hl (h.holds hguarded fits_guards fits_shrinks hb hguards)

theorem guarded_locked_dispatch (h : Ordered rank fits held prog) (hguarded : Guarded guards renews prog) (hi : .logger i ∉ held)
    (level : Nat) : Guarded guards renews (locked (.logger i) (.dispatch i level) ++ prog) := by
  refine guarded_new (fun x hx l hl b hb => ?_) hguarded
  obtain rfl : l = .logger i := by
    rcases List.mem_cons.mp hx with rfl | hx
    · exact hl
    · rcases List.mem_cons.mp hx with rfl | hx
      · exact hl
      · rw [List.mem_singleton.mp hx] at hl
        exact hl.elim
  rcases List.mem_append.mp hb with hb | hb
  · rcases List.mem_cons.mp hb with heq | hb
    · cases heq
    · rcases List.mem_cons.mp hb with heq | hb
      · cases heq
        exact id
      · cases List.mem_singleton.mp hb
  · exact not_guards h hguarded hi hb

/-- What a step leads to has no turn but one that is new. -/
theorem guarded_run (hfits : fits a held held') (h : Ordered rank fits held' prog)
    (hguarded : Guarded guards renews (.act a :: prog)) : Guarded guards renews ((run s a).2 ++ prog) := by
  obtain ⟨hbehind, hguarded⟩ := hguarded
  cases a with
  | log i level =>
    obtain ⟨rfl, hrank⟩ := hfits
    unfold run
    dsimp only
    split
    · exact guarded_locked_dispatch h hguarded (fun hmem => Nat.lt_irrefl _ (hrank _ hmem)) level
    · exact hguarded
  | dispatch i level =>
    refine guarded_new (fun x hx l hl => ?_) hguarded
    unfold run at hx
    dsimp only at hx
    split at hx
    · obtain ⟨j, -, rfl⟩ := List.mem_map.mp hx
      exact hl.elim
    · split at hx
      · rw [List.mem_singleton.mp hx] at hl
        exact hl.elim
      · cases hx
  | append j i turn level =>
    refine guarded_new (fun x hx l hl b _ => ?_) hguarded
    suffices hl : l = .appender j from hl ▸ not_guards_appender b j
    unfold run freshen locked at hx
    dsimp only at hx
    split_ifs at hx
    · simp only [List.cons_append, List.nil_append, List.mem_cons, List.not_mem_nil, or_false] at hx
      rcases hx with rfl | rfl | rfl | rfl | rfl | rfl <;> first | exact hl | exact hl.elim
    · simp only [List.nil_append, List.mem_cons, List.not_mem_nil, or_false] at hx
      rcases hx with rfl | rfl | rfl <;> first | exact hl | exact hl.elim
    · cases hx
  | probe i j =>
    refine guarded_new (fun x hx l hl b _ => ?_) hguarded
    suffices hl : l = .appender j from hl ▸ not_guards_appender b j
    unfold run at hx
    dsimp only at hx
    split_ifs at hx
    · simp only [List.mem_cons, List.not_mem_nil, or_false] at hx
      rcases hx with rfl | rfl | rfl <;> first | exact hl | exact hl.elim
    · simp only [List.mem_cons, List.not_mem_nil, or_false] at hx
      rcases hx with rfl | rfl <;> first | exact hl | exact hl.elim
  | dumpAll =>
    obtain ⟨rfl, hrank⟩ := hfits
    unfold run
    dsimp only
    refine guarded_new (fun x hx l hl b hb => ?_) hguarded
    obtain ⟨i, rfl⟩ : ∃ i, l = .logger i := by
      obtain ⟨y, -, hx⟩ := List.mem_flatMap.mp hx
      simp only [locked, List.mem_cons, List.not_mem_nil, or_false] at hx
      rcases hx with rfl | rfl | rfl
      · exact ⟨_, hl⟩
      · exact hl.elim
      · exact hl.elim
    rcases List.mem_append.mp hb with hb | hb
    · obtain ⟨y, -, hb⟩ := List.mem_flatMap.mp hb
      simp only [locked, List.mem_cons, List.not_mem_nil, or_false] at hb
      rcases hb with heq | heq | heq <;> cases heq
      exact id
    · refine not_guards h hguarded (fun hmem => ?_) hb
      exact absurd (hrank _ hmem) (Nat.not_lt.mpr (rank_logger i).1)
  | dump i =>
    refine guarded_new (fun x hx l hl b _ => ?_) hguarded
    obtain ⟨j, -, hx⟩ := List.mem_flatMap.mp hx
    simp only [List.mem_cons, List.not_mem_nil, or_false] at hx
    rcases hx with rfl | rfl
    · obtain rfl : l = .appender j := hl
      exact not_guards_appender b j
    · exact hl.elim
  | adopt i j =>
    refine ⟨fun l hl => hl.elim, fun l hl => hl.elim, hguarded⟩
  | write j i turn level =>
    unfold run
    dsimp only
    split <;> exact hguarded
  | find name =>
    unfold run
    dsimp only
    split <;> exact hguarded
  | stamp | setLevel | setFormatter | push | remove | clear | setAppenderLevel | setAppenderFormatter => exact hguarded

theorem guarded_program (c : LogCall) : Guarded guards renews c.program := by
  have hall : ∀ b, .act b ∈ c.program → ∀ l, ¬guards b l := by
    intro b hb l
    cases c <;> simp only [LogCall.program, locked, List.mem_cons, Instr.act.injEq, reduceCtorEq, List.not_mem_nil, or_false,
      false_or] at hb <;> (subst hb; exact id)
  generalize c.program = prog at hall
  induction prog with
  | nil => trivial
  | cons x prog ih =>
    exact ⟨fun l _ b hb => hall b (List.mem_cons_of_mem _ hb) l, ih fun b hb => hall b (List.mem_cons_of_mem _ hb)⟩

/-! ### What is shared -/

/-- What a step that is still to come goes by. -/
def Good (s : Logs) : LogStep → Prop
  | .append j i turn _ | .write j i turn _ => (s.appenders j).formatter ≠ none ∧ turn = (s.loggers i).turn
  | .push _ j => (s.appenders j).formatter ≠ none
  | _ => True

structure Fair (s : Logs) : Prop where
  root : (s.loggers 0).hasRoot = false
  count : 0 < s.count
  ready : ∀ i, ∀ j ∈ (s.loggers i).appenders, (s.appenders j).formatter ≠ none
  turns : ∀ j, (s.appenders j).output.Pairwise fun x y => x.logger = y.logger → x.turn ≤ y.turn
  latest : ∀ j, ∀ x ∈ (s.appenders j).output, x.turn ≤ (s.loggers x.logger).turn
  crashed : s.crashed = false

theorem Fair.setLogger (h : Fair s) {f : SharedLogger → SharedLogger} (hroot : i = 0 → (f (s.loggers i)).hasRoot = false)
    (hturn : (s.loggers i).turn ≤ (f (s.loggers i)).turn)
    (hready : ∀ j ∈ (f (s.loggers i)).appenders, (s.appenders j).formatter ≠ none) : Fair (s.setLogger i f) := by
  refine ⟨?_, h.count, fun k j hj => ?_, h.turns, fun j x hx => Nat.le_trans (h.latest j x hx) ?_, h.crashed⟩
  · simp only [Logs.setLogger]
    split
    case isTrue hi => exact hi ▸ hroot hi.symm
    case isFalse => exact h.root
  · simp only [Logs.setLogger] at hj
    split at hj
    case isTrue hk => exact hready j (hk ▸ hj)
    case isFalse => exact h.ready k j hj
  · simp only [Logs.setLogger]
    split
    case isTrue hk => exact hk ▸ hturn
    case isFalse => exact Nat.le_refl _

theorem Fair.setAppender (h : Fair s) {f : SharedAppender → SharedAppender}
    (hformatter : (s.appenders j).formatter ≠ none → (f (s.appenders j)).formatter ≠ none)
    (houtput : (f (s.appenders j)).output = (s.appenders j).output) : Fair (s.setAppender j f) := by
  have hsame : ∀ k, ((s.setAppender j f).appenders k).output = (s.appenders k).output := by
    intro k
    simp only [Logs.setAppender]
    split
    case isTrue hk => exact hk ▸ houtput
    case isFalse => rfl
  refine ⟨h.root, h.count, fun i k hk => ?_, fun k => ?_, fun k x hx => h.latest k x (hsame k ▸ hx), h.crashed⟩
  · have hready := h.ready i k hk
    simp only [Logs.setAppender]
    split
    case isTrue hkj => exact hkj ▸ hformatter (hkj ▸ hready)
    case isFalse => exact hready
  · rw [hsame]
    exact h.turns k

theorem formatter_setAppender {k : Nat} {f : SharedAppender → SharedAppender}
    (hf : (s.appenders k).formatter ≠ none → (f (s.appenders k)).formatter ≠ none) (h : (s.appenders k).formatter ≠ none) :
    ((s.setAppender j f).appenders k).formatter ≠ none := by
  simp only [Logs.setAppender]
  split
  · exact hf h
  · exact h

/-- No appender loses its formatter. -/
theorem formatter_run (s : Logs) (a : LogStep) (k : Nat) (h : (s.appenders k).formatter ≠ none) :
    ((run s a).1.appenders k).formatter ≠ none := by
  cases a with
  | stamp | setAppenderLevel =>
    simp only [run]
    refine formatter_setAppender ?_ h
    exact id
  | adopt | setAppenderFormatter =>
    simp only [run]
    refine formatter_setAppender ?_ h
    exact fun _ => Option.some_ne_none _
  | write =>
    simp only [run]
    split
    · dsimp only
      refine formatter_setAppender ?_ h
      exact id
    · exact h
  | find =>
    unfold run
    dsimp only
    split <;> exact h
  | log | dispatch | append | setLevel | setFormatter | probe | push | remove | clear | dumpAll | dump => exact h

theorem turn_setLogger {f : SharedLogger → SharedLogger} (hf : ∀ l, (f l).turn = l.turn) (k : Nat) :
    ((s.setLogger i f).loggers k).turn = (s.loggers k).turn := by
  simp only [Logs.setLogger]
  split
  · exact hf _
  · rfl

/-- Only its own dispatch gives a logger a new turn. -/
theorem turn_run (s : Logs) (a : LogStep) (k : Nat) (h : ¬renews a (.logger k)) :
    ((run s a).1.loggers k).turn = (s.loggers k).turn := by
  cases a with
  | dispatch i level =>
    have hne : k ≠ i := fun heq => h (congrArg LogLock.logger heq)
    exact congrArg SharedLogger.turn (if_neg hne)
  | setLevel | setFormatter | push | remove | clear =>
    simp only [run]
    refine turn_setLogger ?_ k
    exact fun _ => rfl
  | find =>
    simp only [run]
    split
    · rfl
    · simp only [Logs.construct]
      refine turn_setLogger ?_ k
      exact fun _ => rfl
  | write =>
    unfold run
    dsimp only
    split <;> rfl
  | log | append | stamp | probe | adopt | setAppenderLevel | setAppenderFormatter | dumpAll | dump => rfl

theorem Good.run {b : LogStep} (h : Good s b) (hturn : ∀ i, guards b (.logger i) → ¬renews a (.logger i)) :
    Good (Logs.run s a).1 b := by
  cases b with
  | append j i turn level | write j i turn level =>
    exact ⟨formatter_run s a j h.1, h.2.trans (turn_run s a i (hturn i rfl)).symm⟩
  | push i j => exact formatter_run s a j h
  | _ => trivial

theorem Fair.construct (h : Fair s) (hasRoot : Bool) : Fair (s.construct hasRoot) := by
  have hfair : Fair (s.setLogger s.count fun l => ⟨1, 0, [], hasRoot, l.turn⟩) :=
    h.setLogger (fun hzero => absurd hzero (Nat.ne_of_gt h.count)) (Nat.le_refl _) nofun
  exact ⟨hfair.root, Nat.succ_pos _, hfair.ready, hfair.turns, hfair.latest, hfair.crashed⟩

theorem Fair.run (h : Fair s) (hgood : Good s a) : Fair (Logs.run s a).1 := by
  have hroot : ∀ i, i = 0 → (s.loggers i).hasRoot = false := fun i hi => hi ▸ h.root
  cases a with
  | dispatch i level =>
    simp only [Logs.run]
    refine h.setLogger ?_ ?_ ?_
    · exact hroot i
    · exact Nat.le_succ _
    · exact h.ready i
  | setLevel i | setFormatter i =>
    simp only [Logs.run]
    refine h.setLogger ?_ ?_ ?_
    · exact hroot i
    · exact Nat.le_refl _
    · exact h.ready i
  | push i j =>
    simp only [Logs.run]
    refine h.setLogger ?_ ?_ fun k hk => ?_
    · exact hroot i
    · exact Nat.le_refl _
    · rcases List.mem_append.mp hk with hk | hk
      · exact h.ready i k hk
      · exact List.mem_singleton.mp hk ▸ hgood
  | remove i j =>
    simp only [Logs.run]
    refine h.setLogger ?_ ?_ fun k hk => ?_
    · exact hroot i
    · exact Nat.le_refl _
    · exact h.ready i k (List.mem_of_mem_erase hk)
  | clear i =>
    simp only [Logs.run]
    refine h.setLogger ?_ ?_ fun k hk => ?_
    · exact hroot i
    · exact Nat.le_refl _
    · cases hk
  | stamp | setAppenderLevel =>
    simp only [Logs.run]
    refine h.setAppender ?_ ?_
    · exact id
    · rfl
  | adopt | setAppenderFormatter =>
    simp only [Logs.run]
    refine h.setAppender ?_ ?_
    · exact fun _ => Option.some_ne_none _
    · rfl
  | find name =>
    unfold Logs.run
    dsimp only
    split
    · exact h
    · have hfair := h.construct true
      exact ⟨hfair.root, hfair.count, hfair.ready, hfair.turns, hfair.latest, hfair.crashed⟩
  | write j i turn level =>
    obtain ⟨hformatter, hturn⟩ := hgood
    unfold Logs.run
    dsimp only
    split
    case h_2 hnone => exact absurd hnone hformatter
    case h_1 f _ =>
      have houtput : ∀ k, ∃ lines, ((s.setAppender j fun ap => { ap with output := ap.output ++ [⟨i, turn, level, f⟩] }).appenders
          k).output = (s.appenders k).output ++ lines ∧ ∀ x ∈ lines, lines = [x] ∧ x.logger = i ∧ x.turn = turn := by
        intro k
        simp only [Logs.setAppender]
        split
        case isTrue hk =>
          refine ⟨[⟨i, turn, level, f⟩], rfl, fun x hx => ?_⟩
          obtain rfl := List.mem_singleton.mp hx
          exact ⟨rfl, rfl, rfl⟩
        case isFalse => exact ⟨[], (List.append_nil _).symm, nofun⟩
      refine ⟨h.root, h.count, fun k j' hj' => ?_, fun k => ?_, fun k x hx => ?_, h.crashed⟩
      · dsimp only
        refine formatter_setAppender ?_ (h.ready k j' hj')
        exact id
      · obtain ⟨lines, heq, hlines⟩ := houtput k
        rw [heq]
        refine List.pairwise_append.mpr ⟨h.turns k, ?_, fun x hx y hy hxy => ?_⟩
        · cases lines with
          | nil => exact .nil
          | cons y lines =>
            rw [(hlines y List.mem_cons_self).1]
            exact List.pairwise_singleton ..
        · obtain ⟨-, hlogger, hy⟩ := hlines y hy
          rw [hy, hturn, ← hlogger, ← hxy]
          exact h.latest k x hx
      · obtain ⟨lines, heq, hlines⟩ := houtput k
        rw [heq] at hx
        rcases List.mem_append.mp hx with hx | hx
        · exact h.latest k x hx
        · obtain ⟨-, hlogger, hx⟩ := hlines x hx
          rw [hx, hlogger, hturn]
          exact Nat.le_refl _
  | log | append | probe | dumpAll | dump => exact h

/-- What a step leads to has what it goes by. -/
theorem good_run (h : Fair s) (hgood : Good s a) {b : LogStep} (hb : .act b ∈ (run s a).2) : Good (run s a).1 b := by
  cases a with
  | log i level =>
    simp only [run] at hb
    split at hb
    · simp only [locked, List.mem_cons, Instr.act.injEq, reduceCtorEq, List.not_mem_nil, or_false, false_or] at hb
      subst hb
      trivial
    · cases hb
  | dispatch i level =>
    simp only [run] at hb
    split at hb
    · obtain ⟨j, hj, heq⟩ := List.mem_map.mp hb
      cases heq
      exact ⟨h.ready i j hj, by simp [run, Logs.setLogger]⟩
    · split at hb
      · cases List.mem_singleton.mp hb
        trivial
      · cases hb
  | append j i turn level =>
    simp only [run, freshen, locked] at hb
    split_ifs at hb <;> simp only [List.cons_append, List.nil_append, List.mem_cons, Instr.act.injEq, reduceCtorEq,
      List.not_mem_nil, or_false, false_or] at hb
    · rcases hb with rfl | rfl
      · trivial
      · exact hgood
    · subst hb
      exact hgood
  | probe i j =>
    simp only [run] at hb
    split_ifs at hb with hnone <;> simp only [List.mem_cons, Instr.act.injEq, reduceCtorEq, List.not_mem_nil, or_false,
      false_or] at hb
    · subst hb
      trivial
    · subst hb
      exact hnone
  | adopt i j =>
    simp only [run, List.mem_cons, Instr.act.injEq, reduceCtorEq, List.not_mem_nil, or_false, false_or] at hb
    subst hb
    simp [Good, run, Logs.setAppender]
  | dumpAll =>
    obtain ⟨x, -, hb⟩ := List.mem_flatMap.mp hb
    simp only [locked, List.mem_cons, Instr.act.injEq, reduceCtorEq, List.not_mem_nil, or_false, false_or] at hb
    subst hb
    trivial
  | dump i =>
    obtain ⟨j, -, hb⟩ := List.mem_flatMap.mp hb
    simp at hb
  | write =>
    simp only [run] at hb
    split at hb <;> cases hb
  | find =>
    simp only [run] at hb
    split at hb <;> cases hb
  | stamp | setLevel | setFormatter | push | remove | clear | setAppenderLevel | setAppenderFormatter => cases hb

/-! ### Runs -/

structure Sound (s : Logging) : Prop where
  locks : Locks.Sound rank fits s
  guarded : ∀ k, Guarded guards renews (s.threads k).prog
  good : ∀ k b, .act b ∈ (s.threads k).prog → Good s.shared b
  fair : Fair s.shared

variable {x y : Logging} {k : Nat}

theorem Sound.call (h : Sound x) {c : LogCall} (hs : call x k c.program = some y) : Sound y := by
  have hlocks := h.locks.call (ordered_program c) hs
  obtain ⟨-, heq⟩ := Option.ite_none_right_eq_some.mp hs
  cases heq
  have hgood : ∀ b, .act b ∈ c.program → Good x.shared b := by
    intro b hb
    cases c <;> simp only [LogCall.program, locked, List.mem_cons, Instr.act.injEq, reduceCtorEq, List.not_mem_nil, or_false,
      false_or] at hb <;> (subst hb; trivial)
  refine ⟨hlocks, fun j => ?_, fun j b hb => ?_, h.fair⟩
  · by_cases hj : j = k
    · simp only [hj, Function.update_self]
      exact guarded_program c
    · simp only [Function.update_of_ne hj]
      exact h.guarded j
  · by_cases hj : j = k
    · simp only [hj, Function.update_self] at hb
      exact hgood b hb
    · simp only [Function.update_of_ne hj] at hb
      exact h.good j b hb

/-- A turn that another thread goes by is not ended by a step. -/
theorem Sound.not_renews (h : Sound x) (hprog : (x.threads k).prog = .act a :: prog) {j : Nat} {b : LogStep}
    (hb : .act b ∈ (x.threads j).prog) (hrest : j = k → .act b ∈ prog) (i : Nat) (hguards : guards b (.logger i)) :
    ¬renews a (.logger i) := by
  intro hrenews
  have hordered := hprog ▸ h.locks.ordered k
  obtain ⟨held', hfits, -⟩ := hordered.of_act
  have hmine : .logger i ∈ (x.threads k).held := by
    cases a with
    | dispatch i' level =>
      have heq : LogLock.logger i = .logger i' := hrenews
      exact heq ▸ hfits.2.1
    | _ => exact hrenews.elim
  have htheirs : .logger i ∈ (x.threads j).held :=
    (h.locks.ordered j).holds (h.guarded j) fits_guards fits_shrinks hb hguards
  have hbehind := (hprog ▸ h.guarded k).1
  exact hbehind _ hrenews b (hrest (h.locks.exclusive j k _ htheirs hmine)) hguards

theorem Sound.run (h : Sound x) (hs : Locks.step Logs.run x k = some y) : Sound y := by
  have hlocks := h.locks.step (fun _ _ _ _ hfits hrest => ordered_run h.fair.root hfits hrest) hs
  unfold Locks.step at hs
  have hordered := h.locks.ordered k
  have hguarded := h.guarded k
  have hothers : ∀ {prog}, Guarded guards renews prog → ∀ {held : List LogLock} j,
      Guarded guards renews (Function.update x.threads k ⟨held, prog⟩ j).prog := by
    intro prog hprog held j
    by_cases hj : j = k
    · rw [hj, Function.update_self]
      exact hprog
    · rw [Function.update_of_ne hj]
      exact h.guarded j
  have hlocked : ∀ {z prog}, (x.threads k).prog = z :: prog → ∀ {held : List LogLock} j b,
      .act b ∈ (Function.update x.threads k ⟨held, prog⟩ j).prog → .act b ∈ (x.threads j).prog := by
    intro z prog hprog held j b hb
    by_cases hj : j = k
    · rw [hj, Function.update_self] at hb
      rw [hj, hprog]
      exact List.mem_cons_of_mem _ hb
    · rwa [Function.update_of_ne hj] at hb
  cases hprog : (x.threads k).prog with
  | nil => simp [hprog] at hs
  | cons z prog =>
    rw [hprog] at hordered hguarded
    cases z with
    | lock l =>
      simp only [hprog, Option.ite_none_left_eq_some, Option.some.injEq] at hs
      obtain ⟨-, rfl⟩ := hs
      exact ⟨hlocks, hothers hguarded.2, fun j b hb => h.good j b (hlocked hprog j b hb), h.fair⟩
    | unlock l =>
      simp only [hprog, Option.some.injEq] at hs
      subst hs
      exact ⟨hlocks, hothers hguarded.2, fun j b hb => h.good j b (hlocked hprog j b hb), h.fair⟩
    | act a =>
      simp only [hprog, Option.some.injEq] at hs
      subst hs
      obtain ⟨held', hfits, hrest⟩ := hordered.of_act
      have hgood : Good x.shared a := h.good k a (by rw [hprog]; exact List.mem_cons_self)
      refine ⟨hlocks, hothers (guarded_run hfits hrest hguarded), fun j b hb => ?_, h.fair.run hgood⟩
      by_cases hj : j = k
      · simp only [hj, Function.update_self] at hb
        rcases List.mem_append.mp hb with hb | hb
        · exact good_run h.fair hgood hb
        · have hmem : .act b ∈ (x.threads k).prog := hprog ▸ List.mem_cons_of_mem _ hb
          exact (h.good k b hmem).run fun i hi => h.not_renews hprog hmem (fun _ => hb) i hi
      · simp only [Function.update_of_ne hj] at hb
        exact (h.good j b hb).run fun i hi => h.not_renews hprog hb (fun heq => absurd heq hj) i hi

theorem Sound.shared (h : Sound x) {s : Logs} (hfair : Fair s) (hgood : ∀ b, Good x.shared b → Good s b) :
    Sound { x with shared := s } :=
  ⟨⟨h.locks.ordered, h.locks.sorted, h.locks.locked, h.locks.exclusive⟩, h.guarded, fun j b hb => hgood b (h.good j b hb), hfair⟩

theorem Sound.step (h : Sound x) {a : Act} (hs : x.step a = some y) : Sound y := by
  cases a with
  | call k c => exact h.call (Option.ite_none_right_eq_some.mp hs).2
  | run k => exact h.run hs
  | time now =>
    cases hs
    refine h.shared ⟨h.fair.root, h.fair.count, h.fair.ready, h.fair.turns, h.fair.latest, h.fair.crashed⟩ fun b hb => ?_
    cases b <;> exact hb
  | construct =>
    cases hs
    refine h.shared (h.fair.construct false) fun b hb => ?_
    have hturn : ∀ i, ((x.shared.construct false).loggers i).turn = (x.shared.loggers i).turn := fun i => by
      simp only [Logs.construct]
      refine turn_setLogger ?_ i
      exact fun _ => rfl
    cases b with
    | append j i turn level | write j i turn level => exact ⟨hb.1, hb.2.trans (hturn i).symm⟩
    | push i j => exact hb
    | _ => trivial

theorem sound_init (isFile : Nat → Bool) : Sound (init isFile) := by
  refine ⟨⟨fun _ => .nil, fun _ => .nil, fun _ => ⟨nofun, nofun⟩, nofun⟩, fun _ => trivial, nofun, rfl, Nat.one_pos, fun i j hj => ?_,
    fun _ => .nil, nofun, rfl⟩
  by_cases hi : i = 0
  · have hzero : j = 0 := by simpa [init, hi] using hj
    simp [init, hzero]
  · simp [init, hi] at hj

/-- For any number of threads, any kinds of appenders and any order of their steps. -/
theorem logging_flows {isFile : Nat → Bool} {x : Logging} (h : Reach step (fun _ _ => True) (init isFile) x) :
    (∀ k, (x.threads k).prog ≠ [] → ∃ j y, x.step (.run j) = some y) ∧
      (∀ k, (x.threads k).prog = [] → (x.threads k).held = []) ∧
      x.shared.crashed = false ∧
      ∀ j, (x.shared.appenders j).output.Pairwise fun l l' => l.logger = l'.logger → l.turn ≤ l'.turn := by
  have hsound : Sound x := h.invariant (sound_init isFile) fun _ _ _ hsound _ hs => hsound.step hs
  exact ⟨fun k hk => hsound.locks.progress rank_lt hk, fun k => hsound.locks.released, hsound.fair.crashed, hsound.fair.turns⟩

/-- The last thread waits for a logger whose writer goes on. -/
theorem logging_flows_waits : ∃ x : Logging, (x.step (.run 2)).isNone = true ∧ (x.threads 2).prog ≠ [] ∧
    (x.shared.appenders 3).output ≠ [] ∧ ∃ j y, x.step (.run j) = some y := by
  have hrun : ∃ x, exec step (fun _ _ => True) (init (· == 3))
      ([.call 0 (.getLogger 7), .run 0, .run 0, .run 0, .call 0 (.addAppender 1 3), .time 5, .run 0, .run 0, .call 1 (.log 1 2),
        .run 1, .run 0, .run 0, .run 0, .run 0, .run 0, .run 0, .run 0, .call 2 (.getFormatter 1)] ++
          List.replicate 8 (.run 1)) = some x ∧
      decide ((x.step (.run 2)).isNone = true ∧ (x.threads 2).prog ≠ [] ∧ (x.shared.appenders 3).output ≠ []) = true :=
    (Option.any_eq_true _ _).mp (by decide +kernel)
  obtain ⟨x, hrun, hends⟩ := hrun
  obtain ⟨hwaits, hprog, houtput⟩ := of_decide_eq_true hends
  exact ⟨x, hwaits, hprog, houtput, (logging_flows (reach_of_exec hrun)).1 2 hprog⟩

end Logging
end Log
end MyHttp
