import MyHttp.Lib.Run
import MyHttp.Lib.Updates
import MyHttp.Log.Logger
import Mathlib.Data.List.Nodup

/-! What the listener of the configuration leaves behind, against what the definitions say. It configures a logger from
    what it was before, so a definition without a formatter of its own leaves the formatter of an earlier one. -/

namespace MyHttp
namespace Log

open Lib.CString Lib.Run Lib.Updates

/-! ### What the definitions say -/

/-- A pattern that gives a formatter. -/
def usable (pattern : Bytes) : Bool := pattern ≠ [] && !(LogFormatter.new pattern).isError

/-- The formatter of a definition, or else another. -/
def orElse (pattern : Bytes) (other : LogFormatter) : LogFormatter := if usable pattern then .new pattern else other

def LogAppenderDefine.kind (a : LogAppenderDefine) : Option AppenderKind :=
  if a.type = 1 then some (.file a.file) else if a.type = 2 then some .stdout else none

/-- The appender of a definition, in a logger with a formatter. -/
def LogAppenderDefine.given (formatter : LogFormatter) (a : LogAppenderDefine) : Option LogAppender :=
  a.kind.map fun kind => ⟨kind, a.level, some (orElse a.formatter formatter)⟩

/-- A logger is as its definition says, whatever it was before. -/
structure Gives (d : LogDefine) (l : Logger) : Prop where
  level : l.level = d.level
  formatter : l.formatter = orElse d.formatter defaultFormatter
  appenders : l.appenders.map some = d.appenders.map (·.given (orElse d.formatter defaultFormatter))

/-- A logger that no definition names any more. -/
def Off (l : Logger) : Prop := l.level = 100 ∧ l.appenders = []

/-- The loggers behind a notification, against those in front of it. -/
structure Reconfigured (m : LoggerManager) (old new : LogDefines) (m' : LoggerManager) : Prop where
  named : ∀ d ∈ new.list, ∃ l, m' d.name = some l ∧ Gives d l
  removed : ∀ d ∈ old.list, (∀ e ∈ new.list, e.name ≠ d.name) → ∃ l, m' d.name = some l ∧ Off l
  others : ∀ name, (∀ d ∈ new.list, d.name ≠ name) → (∀ d ∈ old.list, d.name ≠ name) → m' name = m name

/-- Every definition of the new set is a changed one, with appenders of known types; and it has a formatter, or its
    logger still has the one it began with. -/
def Sound (m : LoggerManager) (old new : LogDefines) : Prop :=
  ∀ d ∈ new.list, d ∉ old.list ∧ (∀ a ∈ d.appenders, a.type = 1 ∨ a.type = 2) ∧
    (usable d.formatter = true ∨ ∀ l ∈ m d.name, l.formatter = defaultFormatter)

instance (m : LoggerManager) (old new : LogDefines) : Decidable (Sound m old new) := by unfold Sound; infer_instance

/-! ### One logger -/

variable {m m' : LoggerManager} {old new : LogDefines} {d i : LogDefine} {l l' : Logger} {name : Bytes}

theorem orElse_of_not {pattern : Bytes} {other : LogFormatter} (h : usable pattern = false) : orElse pattern other = other := by
  rw [orElse, h]
  rfl

theorem addDefined_eq (l : Logger) (a : LogAppenderDefine) :
    addDefined l a = (a.given l.formatter).map fun ap => { l with appenders := l.appenders ++ [ap] } := by
  have hkind : newAppender a = a.kind.map .new := by
    unfold newAppender LogAppenderDefine.kind
    split
    · rfl
    · split <;> rfl
  rw [addDefined, hkind, LogAppenderDefine.given]
  cases a.kind with
  | none => rfl
  | some kind =>
    by_cases husable : a.formatter ≠ [] ∧ (LogFormatter.new a.formatter).isError = false
    · have horElse : orElse a.formatter l.formatter = .new a.formatter := by simp [orElse, usable, husable]
      simp [husable, horElse, Logger.addAppender, LogAppender.setLevel, LogAppender.setFormatter, LogAppender.new]
    · have horElse : orElse a.formatter l.formatter = l.formatter := orElse_of_not (by simpa [usable] using husable)
      simp only [Option.map_some, husable, if_false, horElse]
      rfl

theorem foldlM_addDefined {as : List LogAppenderDefine} : as.foldlM addDefined l = some l' ↔
    l'.level = l.level ∧ l'.formatter = l.formatter ∧
      l'.appenders.map some = l.appenders.map some ++ as.map (·.given l.formatter) := by
  induction as generalizing l with
  | nil =>
    rw [List.foldlM_nil, List.map_nil, List.append_nil]
    constructor
    · intro h
      obtain rfl := Option.some.inj h
      exact ⟨rfl, rfl, rfl⟩
    · rintro ⟨hlevel, hformatter, happenders⟩
      have hsame : l'.appenders = l.appenders := List.map_injective_iff.mpr (fun _ _ => Option.some.inj) happenders
      obtain ⟨level, formatter, appenders⟩ := l
      obtain ⟨level', formatter', appenders'⟩ := l'
      cases hlevel
      cases hformatter
      cases hsame
      rfl
  | cons a as ih =>
    rw [List.foldlM_cons, addDefined_eq]
    cases hap : a.given l.formatter with
    | none =>
      constructor
      · intro h
        cases h
      · rintro ⟨-, -, happenders⟩
        have hnone : none ∈ l'.appenders.map some := by
          rw [happenders, List.map_cons, hap]
          exact List.mem_append_right _ List.mem_cons_self
        obtain ⟨x, -, hx⟩ := List.mem_map.mp hnone
        cases hx
    | some ap =>
      rw [Option.map_some, Option.bind_eq_bind, Option.bind_some, ih]
      simp only [List.map_append, List.map_cons, List.map_nil, List.append_assoc, hap, List.singleton_append]

/-- What the listener leaves of the logger depends on the formatter that it had, and on nothing else of it. -/
theorem configure_eq : configure l d = some l' ↔ l'.level = d.level ∧ l'.formatter = orElse d.formatter l.formatter ∧
    l'.appenders.map some = d.appenders.map (·.given (orElse d.formatter l.formatter)) := by
  have hformatter : (if d.formatter ≠ [] then (l.setLevel d.level).setFormatter d.formatter else l.setLevel d.level) =
      { l with level := d.level, formatter := orElse d.formatter l.formatter } := by
    by_cases hnil : d.formatter = []
    · simp [hnil, orElse, usable, Logger.setLevel]
    · cases herror : (LogFormatter.new d.formatter).isError with
      | true => simp [hnil, herror, orElse, usable, Logger.setLevel, Logger.setFormatter]
      | false => simp [hnil, herror, orElse, usable, Logger.setLevel, Logger.setFormatter]
  rw [configure, hformatter, foldlM_addDefined]
  exact Iff.rfl

/-! ### The loops -/

theorem names_distinct (s : LogDefines) : s.list.Pairwise fun x y => x.name ≠ y.name :=
  s.sorted.imp fun {x y} (hlt : x.name < y.name) heq => List.lt_irrefl y.name (heq ▸ hlt)

theorem eq_of_name {s : LogDefines} (hd : d ∈ s.list) (hi : i ∈ s.list) (h : d.name = i.name) : d = i :=
  List.inj_on_of_nodup_map (List.pairwise_map.mpr (names_distinct s)) hd hi h

theorem find_some {s : LogDefines} (h : s.find i = some d) : d ∈ s.list ∧ d.name = i.name := by
  rw [LogDefines.find] at h
  exact ⟨List.mem_of_find?_eq_some h, by simpa using List.find?_some h⟩

theorem find_none {s : LogDefines} : s.find i = none ↔ ∀ d ∈ s.list, d.name ≠ i.name := by
  rw [LogDefines.find, List.find?_eq_none]
  simp only [decide_eq_true_eq, ne_eq]

theorem find_self {s : LogDefines} (h : i ∈ s.list) : s.find i = some i := by
  cases hfind : s.find i with
  | none => exact absurd rfl (find_none.mp hfind i h)
  | some d =>
    obtain ⟨hd, hname⟩ := find_some hfind
    rw [eq_of_name hd h hname]

/-- The entry of a logger behind its definition of the new set. -/
def newEntry (old : LogDefines) (i : LogDefine) (e : Option Logger) : Option (Option Logger) :=
  if i ∈ old.list then none else (configure (e.getD .new) i).map some

/-- The entry behind a definition of the old set. -/
def oldEntry (new : LogDefines) (i : LogDefine) (e : Option Logger) : Option (Option Logger) :=
  some (if ∀ d ∈ new.list, d.name ≠ i.name then some ((e.getD .new).setLevel 100).clearAppenders else e)

theorem update_getLogger (m : LoggerManager) (name : Bytes) (e : Option Logger) :
    Function.update (m.getLogger name).1 name e = Function.update m name e ∧ (m.getLogger name).2 = (m name).getD .new := by
  unfold LoggerManager.getLogger
  cases m name with
  | none => exact ⟨Function.update_idem .., rfl⟩
  | some l => exact ⟨rfl, rfl⟩

theorem applyNew_eq : applyNew old m i = update LogDefine.name (newEntry old) m i := by
  obtain ⟨hupdate, hlogger⟩ : (∀ e, Function.update (m.getLogger i.name).1 i.name e = Function.update m i.name e) ∧
      (m.getLogger i.name).2 = (m i.name).getD .new :=
    ⟨fun e => (update_getLogger m i.name e).1, (update_getLogger m i.name none).2⟩
  have hfound : i ∉ old.list → applyNew old m i =
      (configure (m.getLogger i.name).2 i).map fun l => Function.update (m.getLogger i.name).1 i.name (some l) := by
    intro hold
    unfold applyNew
    cases hfind : old.find i with
    | none => rfl
    | some d =>
      have hne : i ≠ d := fun heq => hold (heq ▸ (find_some hfind).1)
      simp only [hne, ne_eq, not_false_eq_true, if_true, Option.bind_some]
  by_cases hold : i ∈ old.list
  · simp [applyNew, find_self hold, update, newEntry, hold]
  · rw [hfound hold, hlogger, update, newEntry, if_neg hold, Option.map_map]
    simp only [hupdate]
    rfl

theorem removeOld_eq : some (removeOld new m i) = update LogDefine.name (oldEntry new) m i := by
  rw [update, oldEntry, removeOld]
  cases hfind : new.find i with
  | none =>
    dsimp only
    rw [if_pos (find_none.mp hfind), Option.map_some, (update_getLogger m i.name _).1, (update_getLogger m i.name none).2]
  | some d =>
    obtain ⟨hd, hname⟩ := find_some hfind
    rw [if_neg fun h => h d hd hname, Option.map_some, Function.update_eq_self]

theorem foldl_removeOld (l : List LogDefine) : l.foldlM (update LogDefine.name (oldEntry new)) m = some (l.foldl (removeOld new) m) := by
  induction l generalizing m with
  | nil => rfl
  | cons i l ih => rw [List.foldlM_cons, ← removeOld_eq, List.foldl_cons, ← ih]; rfl

/-- The entries behind a notification. A name of both sets is handled by the first loop only. -/
theorem listener_eq : listener m old new = some m' ↔
    (∀ d ∈ new.list, newEntry old d (m d.name) = some (m' d.name)) ∧
      (∀ d ∈ old.list, (∀ e ∈ new.list, e.name ≠ d.name) →
        m' d.name = some (((m d.name).getD .new).setLevel 100).clearAppenders) ∧
      ∀ name, (∀ d ∈ new.list, d.name ≠ name) → (∀ d ∈ old.list, d.name ≠ name) → m' name = m name := by
  have hloops : listener m old new = (new.list.foldlM (update LogDefine.name (newEntry old)) m).bind fun m =>
      old.list.foldlM (update LogDefine.name (oldEntry new)) m := by
    have hnew : applyNew old = update LogDefine.name (newEntry old) := funext fun m => funext fun i => applyNew_eq
    simp only [listener, hnew, foldl_removeOld]
    exact Option.map_eq_bind
  have hkept : ∀ m₁ : LoggerManager, ∀ d ∈ old.list, (∃ e ∈ new.list, e.name = d.name) →
      oldEntry new d (m₁ d.name) = some (m₁ d.name) := by
    rintro m₁ d - ⟨e, he, hname⟩
    rw [oldEntry, if_neg fun h => h e he hname]
  rw [hloops, Option.bind_eq_some_iff]
  constructor
  · rintro ⟨m₁, hfirst, hsecond⟩
    obtain ⟨hnew, hrest⟩ := (foldlM_update (names_distinct new)).mp hfirst
    obtain ⟨hold, hrest'⟩ := (foldlM_update (names_distinct old)).mp hsecond
    have hsame : ∀ d ∈ new.list, m' d.name = m₁ d.name := by
      intro d hd
      by_cases hboth : ∃ e ∈ old.list, e.name = d.name
      · obtain ⟨e, he, hname⟩ := hboth
        have hentry := (hold e he).symm.trans (hkept m₁ e he ⟨d, hd, hname.symm⟩)
        rw [← hname]
        exact Option.some.inj hentry
      · exact hrest' d.name fun e he hname => hboth ⟨e, he, hname⟩
    refine ⟨fun d hd => ?_, fun d hd hnone => ?_, fun name hn ho => (hrest' name ho).trans (hrest name hn)⟩
    · rw [hsame d hd]
      exact hnew d hd
    · have hentry := hold d hd
      rw [oldEntry, if_pos hnone, hrest d.name hnone] at hentry
      exact (Option.some.inj hentry).symm
  · rintro ⟨hnew, hold, hrest⟩
    obtain ⟨m₁, hfirst⟩ := exists_foldlM_update (names_distinct new) fun d hd => ⟨m' d.name, hnew d hd⟩
    obtain ⟨hnew', hrest'⟩ := (foldlM_update (names_distinct new)).mp hfirst
    have hsame : ∀ d ∈ new.list, m₁ d.name = m' d.name := fun d hd =>
      Option.some.inj ((hnew' d hd).symm.trans (hnew d hd))
    refine ⟨m₁, hfirst, (foldlM_update (names_distinct old)).mpr ⟨fun d hd => ?_, fun name ho => ?_⟩⟩
    · by_cases hboth : ∃ e ∈ new.list, e.name = d.name
      · obtain ⟨e, he, hname⟩ := hboth
        rw [hkept m₁ d hd ⟨e, he, hname⟩, ← hname, hsame e he]
      · have hnone : ∀ e ∈ new.list, e.name ≠ d.name := fun e he hname => hboth ⟨e, he, hname⟩
        rw [oldEntry, if_pos hnone, hrest' d.name hnone, hold d hd hnone]
    · by_cases hnamed : ∃ e ∈ new.list, e.name = name
      · obtain ⟨e, he, rfl⟩ := hnamed
        exact (hsame e he).symm
      · have hnone : ∀ e ∈ new.list, e.name ≠ name := fun e he hname => hnamed ⟨e, he, hname⟩
        rw [hrest' name hnone, hrest name hnone ho]

/-! ### A notification -/

theorem newEntry_eq {e : Option Logger} : newEntry old d e = some (m' d.name) ↔
    d ∉ old.list ∧ ∃ l, m' d.name = some l ∧ configure (e.getD .new) d = some l := by
  rw [newEntry]
  split
  · rename_i hold
    exact iff_of_false nofun fun h => h.1 hold
  · rename_i hold
    rw [Option.map_eq_some_iff]
    constructor
    · rintro ⟨l, hl, heq⟩
      exact ⟨hold, l, heq.symm, hl⟩
    · rintro ⟨-, l, heq, hl⟩
      exact ⟨l, hl, heq.symm⟩

theorem kind_some {a : LogAppenderDefine} : (∃ kind, a.kind = some kind) ↔ a.type = 1 ∨ a.type = 2 := by
  unfold LogAppenderDefine.kind
  by_cases hone : a.type = 1 <;> by_cases htwo : a.type = 2 <;> simp [hone, htwo]

theorem given_all {as : List LogAppenderDefine} {formatter : LogFormatter} :
    (∃ aps : List LogAppender, aps.map some = as.map (·.given formatter)) ↔ ∀ a ∈ as, a.type = 1 ∨ a.type = 2 := by
  constructor
  · rintro ⟨aps, haps⟩ a ha
    have hmem : a.given formatter ∈ aps.map some := haps ▸ List.mem_map_of_mem ha
    obtain ⟨ap, -, hap⟩ := List.mem_map.mp hmem
    obtain ⟨kind, hkind, -⟩ := Option.map_eq_some_iff.mp hap.symm
    exact kind_some.mp ⟨kind, hkind⟩
  · intro h
    induction as with
    | nil => exact ⟨[], rfl⟩
    | cons a as ih =>
      obtain ⟨aps, haps⟩ := ih fun b hb => h b (List.mem_cons_of_mem a hb)
      obtain ⟨kind, hkind⟩ := kind_some.mpr (h a List.mem_cons_self)
      exact ⟨⟨kind, a.level, some (orElse a.formatter formatter)⟩ :: aps, by simp [haps, LogAppenderDefine.given, hkind]⟩

/-- The formatter that a definition leaves is the one it says, if it has one or the logger had the first one. -/
theorem orElse_default {e : Option Logger} : orElse d.formatter (e.getD .new).formatter = orElse d.formatter defaultFormatter ↔
    usable d.formatter = true ∨ ∀ l ∈ e, l.formatter = defaultFormatter := by
  cases husable : usable d.formatter with
  | true => simp [orElse, husable]
  | false =>
    rw [orElse_of_not husable, orElse_of_not husable]
    cases e with
    | none => simp [Logger.new]
    | some l => simp

/-- A notification configures the loggers as the sets say exactly when the new set is sound. -/
theorem reconfigured_iff (m : LoggerManager) (old new : LogDefines) :
    (∃ m', listener m old new = some m' ∧ Reconfigured m old new m') ↔ Sound m old new := by
  constructor
  · rintro ⟨m', hlistener, hm'⟩ d hd
    obtain ⟨hnew, -, -⟩ := listener_eq.mp hlistener
    obtain ⟨hold, l, hl, hconfigure⟩ := newEntry_eq.mp (hnew d hd)
    obtain ⟨-, hformatter, happenders⟩ := configure_eq.mp hconfigure
    obtain ⟨l', hl', hgives⟩ := hm'.named d hd
    obtain rfl := Option.some.inj (hl.symm.trans hl')
    exact ⟨hold, given_all.mp ⟨l.appenders, happenders⟩, orElse_default.mp (hformatter.symm.trans hgives.formatter)⟩
  · intro hsound
    have hconfigure : ∀ d ∈ new.list, ∃ l, newEntry old d (m d.name) = some (some l) ∧ Gives d l := by
      intro d hd
      obtain ⟨hold, htypes, hformatter⟩ := hsound d hd
      obtain ⟨aps, haps⟩ := given_all.mpr htypes
      have hlogger : configure ((m d.name).getD .new) d = some ⟨d.level, orElse d.formatter defaultFormatter, aps⟩ := by
        rw [configure_eq, orElse_default.mpr hformatter]
        exact ⟨rfl, rfl, haps⟩
      exact ⟨_, by rw [newEntry, if_neg hold, hlogger, Option.map_some], rfl, rfl, haps⟩
    obtain ⟨m₁, hfirst⟩ := exists_foldlM_update (names_distinct new) fun d hd => ⟨_, (hconfigure d hd).choose_spec.1⟩
    have hnew : applyNew old = update LogDefine.name (newEntry old) := funext fun m => funext fun i => applyNew_eq
    have hlistener : listener m old new = some (old.list.foldl (removeOld new) m₁) := by
      rw [listener, hnew, hfirst, Option.map_some]
    refine ⟨_, hlistener, ?_⟩
    obtain ⟨hnamed, hremoved, hothers⟩ := listener_eq.mp hlistener
    refine ⟨fun d hd => ?_, fun d hd hnone => ⟨_, hremoved d hd hnone, rfl, rfl⟩, hothers⟩
    obtain ⟨l, hentry, hgives⟩ := hconfigure d hd
    exact ⟨l, Option.some.inj ((hnamed d hd).symm.trans hentry), hgives⟩

/-! ### Runs -/

namespace LogState

/-- The notifications of a run are sound. -/
def SoundAct (s : LogState) : LogAct → Prop
  | .setValue v => v = s.val ∨ Sound s.manager s.val v
  | .getLogger _ => True

instance (s : LogState) (a : LogAct) : Decidable (SoundAct s a) := by
  cases a <;> unfold SoundAct <;> infer_instance

/-- The loggers are as the value of the variable says, whatever it was before. -/
structure Configured (s : LogState) : Prop where
  current : ∀ d ∈ s.val.list, ∃ l, s.manager d.name = some l ∧ Gives d l
  former : ∀ name ∈ s.named, (∀ d ∈ s.val.list, d.name ≠ name) → ∃ l, s.manager name = some l ∧ Off l

theorem getLogger_kept {m : LoggerManager} {name k : Bytes} {l : Logger} (h : m k = some l) :
    (m.getLogger name).1 k = some l := by
  unfold LoggerManager.getLogger
  cases hname : m name with
  | some l' => exact h
  | none =>
    have hne : k ≠ name := by
      rintro rfl
      rw [hname] at h
      cases h
    exact (Function.update_of_ne hne _ _).trans h

/-- The value of the variable is a set of names that were named; the others were so before. -/
structure Inv (s : LogState) : Prop extends Configured s where
  named : ∀ d ∈ s.val.list, d.name ∈ s.named

theorem Inv.step {s s' : LogState} {a : LogAct} (h : Inv s) (hok : SoundAct s a) (hs : s.step a = some s') : Inv s' := by
  cases a with
  | getLogger name =>
    obtain rfl := Option.some.inj hs
    refine ⟨⟨fun d hd => ?_, fun k hk hnone => ?_⟩, h.named⟩
    · obtain ⟨l, hl, hgives⟩ := h.current d hd
      exact ⟨l, getLogger_kept hl, hgives⟩
    · obtain ⟨l, hl, hoff⟩ := h.former k hk hnone
      exact ⟨l, getLogger_kept hl, hoff⟩
  | setValue v =>
    rw [LogState.step] at hs
    split at hs
    · obtain rfl := Option.some.inj hs
      exact h
    · rename_i hne
      obtain ⟨manager, hlistener, rfl⟩ := Option.map_eq_some_iff.mp hs
      obtain ⟨manager', hlistener', hm⟩ := (reconfigured_iff _ _ _).mpr (hok.resolve_left hne)
      obtain rfl := Option.some.inj (hlistener.symm.trans hlistener')
      refine ⟨⟨hm.named, fun k hk hnone => ?_⟩, fun d hd => List.mem_append_left _ (List.mem_map_of_mem hd)⟩
      have hbefore : k ∈ s.named := by
        refine (List.mem_append.mp hk).resolve_left fun hmem => ?_
        obtain ⟨d, hd, rfl⟩ := List.mem_map.mp hmem
        exact hnone d hd rfl
      by_cases hold : ∃ d ∈ s.val.list, d.name = k
      · obtain ⟨d, hd, rfl⟩ := hold
        exact hm.removed d hd hnone
      · have hothers : ∀ d ∈ s.val.list, d.name ≠ k := fun d hd hname => hold ⟨d, hd, hname⟩
        obtain ⟨l, hl, hoff⟩ := h.former k hbefore hothers
        exact ⟨l, (hm.others k hnone hothers).trans hl, hoff⟩

end LogState

/-- A notification leaves the loggers as the sets say, and comes to its end, exactly when the new set is sound; and where
    all sets so far were, every logger is as the last of them says. -/
theorem reconfigure_iff (m : LoggerManager) (old new : LogDefines) (s : LogState) :
    ((∃ m', listener m old new = some m' ∧ Reconfigured m old new m') ↔ Sound m old new) ∧
    (Reach LogState.step LogState.SoundAct .init s → s.Configured) := by
  refine ⟨reconfigured_iff m old new, fun hreach => ?_⟩
  refine (hreach.invariant (P := LogState.Inv) ?_ fun s a t h hok hs => h.step hok hs).toConfigured
  exact ⟨⟨nofun, nofun⟩, nofun⟩

def stdoutNode : AppenderNode := ⟨some (ascii "StdoutLogAppender"), none, none, none⟩

def rootNode : LoggerNode := ⟨some (ascii "root"), some (ascii "info"), none, [stdoutNode]⟩

def systemNode : LoggerNode :=
  ⟨some (ascii "system"), some (ascii "debug"), some (ascii "%d%T%m%n"),
    [⟨some (ascii "FileLogAppender"), some (ascii "error"), some (ascii "system.txt"), some (ascii "%m%n")⟩, stdoutNode]⟩

theorem reconfigure_system :
    let s := (exec LogState.step LogState.SoundAct .init
      [.setValue (.cast [rootNode]), .getLogger (ascii "http"), .setValue (.cast [systemNode])]).get (by decide +kernel)
    s.Configured ∧ ∃ m', listener s.manager s.val (.cast [rootNode]) = some m' ∧
      Reconfigured s.manager s.val (.cast [rootNode]) m' := by
  intro s
  obtain ⟨hiff, hruns⟩ := reconfigure_iff s.manager s.val (.cast [rootNode]) s
  exact ⟨hruns (reach_of_exec (Option.some_get _).symm), hiff.mpr (by decide +kernel)⟩

/-- A second logger is added to the file; the definition of the first is as it was. -/
theorem reconfigure_fails : ¬∀ s, Reach LogState.step (fun _ _ => True) .init s → ∀ nodes, ∃ m',
    listener s.manager s.val (.cast nodes) = some m' ∧ Reconfigured s.manager s.val (.cast nodes) m' := by
  intro h
  let s := (exec LogState.step (fun _ _ => True) .init [.setValue (.cast [rootNode])]).get (by decide +kernel)
  obtain ⟨m', hlistener, -⟩ := h s (reach_of_exec (Option.some_get _).symm) [rootNode, systemNode]
  have hnull : (listener s.manager s.val (.cast [rootNode, systemNode])).isNone = true := by decide +kernel
  rw [hlistener] at hnull
  cases hnull

end Log
end MyHttp
