import MyHttp.Config.Casts
import MyHttp.Theorems.Config.FlowYaml
import Mathlib.Tactic.IntervalCases

/-! What the casts of the configuration make of a value on its way to a text and back, when the library loads what it
    emits. The appenders of a logger are lost, since their list is written as a text and read as a list, and so is the
    formatter of an appender that writes to stdout. -/

namespace MyHttp

open Lib.CString

/-- What is documented of the library: it loads the node that it has emitted, and a value that was assigned is read. -/
structure YamlCpp.Lawful (yaml : YamlCpp) : Prop where
  load_emit : ∀ node, yaml.load (yaml.emit node) = some node
  asString_scalar : ∀ s, yaml.asString (.scalar s) = some s
  asInt_ofInt : ∀ n, yaml.asInt (yaml.ofInt n) = some n
  elements_null : yaml.elements .null = []
  elements_scalar : ∀ s, yaml.elements (.scalar s) = []
  elements_sequence : ∀ items, yaml.elements (.sequence items) = items

/-- To a text and back. -/
def RoundTrips {T : Type} (toString : T → Option Bytes) (fromString : Bytes → Option T) (v : T) : Prop :=
  (toString v).bind fromString = some v

variable {yaml : YamlCpp} {T : Type} {node : Yaml} {key : String} {s : Bytes}

/-! ### Fields -/

theorem stringAt_scalar (h : yaml.Lawful) (hget : node.get key = some (some (.scalar s))) (default : Bytes) :
    stringAt yaml node key default = some s := by
  unfold stringAt
  rw [hget]
  exact h.asString_scalar s

theorem stringAt_undefined (hget : node.get key = some none) (default : Bytes) :
    stringAt yaml node key default = some default := by
  unfold stringAt
  rw [hget]
  rfl

/-- A key that comes behind others. -/
theorem get_append {entries entries' : List (Yaml × Yaml)}
    (h : (entries.find? fun e => Yaml.isKey (ascii key) e.1) = none) :
    (Yaml.map (entries ++ entries')).get key = (Yaml.map entries').get key := by
  unfold Yaml.get
  dsimp only
  rw [List.find?_append, h, Option.none_or]

/-! ### Lists -/

theorem mapM_eq_map {S : Type} {f : S → Option T} {g : S → T} {l : List S} (h : ∀ i ∈ l, f i = some (g i)) :
    l.mapM f = some (l.map g) := by
  induction l with
  | nil => rfl
  | cons i l ih =>
    rw [List.mapM_cons, h i List.mem_cons_self, ih fun j hj => h j (List.mem_cons_of_mem i hj)]
    rfl

theorem mapM_eq_self_iff {f : T → Option T} {l : List T} : l.mapM f = some l ↔ ∀ i ∈ l, f i = some i := by
  induction l with
  | nil => simp
  | cons i l ih =>
    rw [List.forall_mem_cons, ← ih, List.mapM_cons]
    cases hi : f i with
    | none => simp
    | some j => cases hl : l.mapM f <;> simp

/-- A list is read as it was written when each of its elements is. -/
theorem vector_roundTrips_iff (h : yaml.Lawful) {toNode : T → Yaml} (fromString : Bytes → Option T) (l : List T) :
    RoundTrips (yaml.vectorToString fun i => some (yaml.emit (toNode i))) (yaml.vectorFromString fromString) l ↔
      ∀ i ∈ l, RoundTrips (fun i => some (yaml.emit (toNode i))) fromString i := by
  have hnodes : (l.mapM fun i => (some (yaml.emit (toNode i))).bind yaml.load) = some (l.map toNode) :=
    mapM_eq_map fun i _ => h.load_emit (toNode i)
  have hlist : RoundTrips (yaml.vectorToString fun i => some (yaml.emit (toNode i))) (yaml.vectorFromString fromString) l ↔
      (l.mapM fun i => fromString (yaml.emit (toNode i))) = some l := by
    unfold RoundTrips YamlCpp.vectorToString YamlCpp.vectorFromString
    rw [hnodes, Option.map_some, Option.bind_some, h.load_emit, Option.bind_some]
    cases l with
    | nil =>
      rw [List.map_nil, h.elements_null, List.mapM_nil, List.mapM_nil]
    | cons i l =>
      rw [List.map_cons, h.elements_sequence, ← List.map_cons, List.mapM_map]
      rfl
  rw [hlist, mapM_eq_self_iff]
  exact Iff.rfl

namespace Log

/-! ### Levels and formatters -/

theorem level_roundTrips_iff (level : Nat) : levelFromString (levelToString level) = level ↔ level ≤ 5 := by
  rcases Nat.lt_or_ge level 6 with hlt | hge
  · refine iff_of_true ?_ (Nat.le_of_lt_succ hlt)
    interval_cases level <;> decide
  · have hunknown : levelToString level = ascii "UNKNOW" := by
      unfold levelToString
      split <;> first | omega | rfl
    have hzero : levelFromString (ascii "UNKNOW") = 0 := by decide
    rw [hunknown, hzero]
    omega

/-- The formatter among other entries. -/
theorem stringAt_formatter (h : yaml.Lawful) {entries rest : List (Yaml × Yaml)} (formatter : Bytes)
    (hother : (entries.find? fun e => Yaml.isKey (ascii "formatter") e.1) = none)
    (hrest : (rest.find? fun e => Yaml.isKey (ascii "formatter") e.1) = none) :
    stringAt yaml (.map (entries ++ (formatterEntry formatter ++ rest))) "formatter" [] = some formatter := by
  by_cases hnil : formatter = []
  · subst hnil
    refine stringAt_undefined ?_ []
    unfold Yaml.get
    dsimp only
    rw [List.find?_append, hother, Option.none_or, formatterEntry, if_neg (not_not_intro rfl), List.nil_append, hrest]
    rfl
  · refine stringAt_scalar h ?_ []
    rw [get_append hother, formatterEntry, if_pos hnil]
    rfl

/-! ### Appenders -/

theorem file_fromString (h : yaml.Lawful) {v : LogAppenderDefine} (htype : v.type = 1) :
    LogAppenderDefine.fromString yaml (yaml.emit v.node) =
      some ⟨1, levelFromString (levelToString v.level), v.formatter, v.file⟩ := by
  have hnode : v.node = .map ([(.text "type", .text "FileLogAppender"), (.text "file", .scalar v.file),
      (.text "level", .scalar (levelToString v.level))] ++ formatterEntry v.formatter) := by
    rw [LogAppenderDefine.node, if_pos htype]
    rfl
  have htypeGet : v.node.get "type" = some (some (.text "FileLogAppender")) := hnode ▸ rfl
  have hfileGet : v.node.get "file" = some (some (.scalar v.file)) := hnode ▸ rfl
  have hlevel : stringAt yaml v.node "level" [] = some (levelToString v.level) := stringAt_scalar h (hnode ▸ rfl) []
  have hformatter : stringAt yaml v.node "formatter" [] = some v.formatter := by
    rw [hnode, ← List.append_nil (formatterEntry v.formatter)]
    exact stringAt_formatter h v.formatter rfl rfl
  unfold LogAppenderDefine.fromString
  rw [h.load_emit]
  simp only [Option.bind_eq_bind, Option.bind_some, htypeGet, hlevel, hfileGet, hformatter, Yaml.text, h.asString_scalar,
    if_true]
  rfl

theorem stdout_fromString (h : yaml.Lawful) {v : LogAppenderDefine} (htype : v.type = 2) :
    LogAppenderDefine.fromString yaml (yaml.emit v.node) = some ⟨2, levelFromString (levelToString v.level), [], []⟩ := by
  have hnode : v.node = .map ([(.text "type", .text "StdoutLogAppender"),
      (.text "level", .scalar (levelToString v.level))] ++ formatterEntry v.formatter) := by
    rw [LogAppenderDefine.node, if_neg (by rw [htype]; decide), if_pos htype]
    rfl
  have htypeGet : v.node.get "type" = some (some (.text "StdoutLogAppender")) := hnode ▸ rfl
  have hlevel : stringAt yaml v.node "level" [] = some (levelToString v.level) := stringAt_scalar h (hnode ▸ rfl) []
  have hother : ascii "StdoutLogAppender" ≠ ascii "FileLogAppender" := by decide
  unfold LogAppenderDefine.fromString
  rw [h.load_emit]
  simp only [Option.bind_eq_bind, Option.bind_some, htypeGet, hlevel, Yaml.text, h.asString_scalar, if_neg hother, if_true]
  rfl

/-- A file, or stdout without a file. -/
def Typed (v : LogAppenderDefine) : Prop := v.type = 1 ∨ v.type = 2 ∧ v.file = []

/-- What is known of an appender after a round trip: a level that has a name, and the formatter of a file. -/
def AppenderKept (v : LogAppenderDefine) : Prop := v.level ≤ 5 ∧ (v.type = 1 ∨ v.formatter = [])

theorem appender_roundTrips_iff (h : yaml.Lawful) {v : LogAppenderDefine} (htyped : Typed v) :
    RoundTrips (LogAppenderDefine.toString yaml) (LogAppenderDefine.fromString yaml) v ↔ AppenderKept v := by
  have hsame : RoundTrips (LogAppenderDefine.toString yaml) (LogAppenderDefine.fromString yaml) v ↔
      LogAppenderDefine.fromString yaml (yaml.emit v.node) = some v := Iff.rfl
  rw [hsame]
  obtain ⟨type, level, formatter, file⟩ := v
  rcases htyped with htype | ⟨htype, hfile⟩
  · obtain rfl : type = 1 := htype
    rw [file_fromString h rfl]
    simp [AppenderKept, level_roundTrips_iff]
  · obtain rfl : type = 2 := htype
    obtain rfl : file = [] := hfile
    rw [stdout_fromString h rfl]
    simp [AppenderKept, level_roundTrips_iff, eq_comm (a := ([] : Bytes))]

/-! ### Loggers -/

/-- The list of appenders has become a text, and a text has no elements. -/
theorem logger_fromString (h : yaml.Lawful) (v : LogDefine) (appenders : Bytes) :
    LogDefine.fromString yaml (yaml.emit (v.node appenders)) =
      some ⟨v.name, levelFromString (levelToString v.level), v.formatter, []⟩ := by
  have hnameGet : (v.node appenders).get "name" = some (some (.scalar v.name)) := rfl
  have hlevel : stringAt yaml (v.node appenders) "level" [] = some (levelToString v.level) := stringAt_scalar h rfl []
  have hformatter : stringAt yaml (v.node appenders) "formatter" [] = some v.formatter := by
    unfold LogDefine.node
    rw [List.append_assoc]
    exact stringAt_formatter h v.formatter rfl rfl
  have happenders : (v.node appenders).get "appenders" = some (some (.scalar appenders)) := by
    unfold LogDefine.node formatterEntry
    split <;> rfl
  have hlist : yaml.vectorFromString (LogAppenderDefine.fromString yaml) (yaml.emit (.scalar appenders)) = some [] := by
    unfold YamlCpp.vectorFromString
    rw [h.load_emit, Option.bind_some, h.elements_scalar, List.mapM_nil]
    rfl
  unfold LogDefine.fromString
  rw [h.load_emit]
  simp only [Option.bind_eq_bind, Option.bind_some, hnameGet, hlevel, hformatter, happenders, h.asString_scalar, hlist]
  rfl

theorem logger_roundTrips_iff (h : yaml.Lawful) (v : LogDefine) :
    RoundTrips (LogDefine.toString yaml) (LogDefine.fromString yaml) v ↔ v.level ≤ 5 ∧ v.appenders = [] := by
  have hnodes : (v.appenders.mapM fun i => (LogAppenderDefine.toString yaml i).bind yaml.load) =
      some (v.appenders.map LogAppenderDefine.node) :=
    mapM_eq_map fun i _ => h.load_emit i.node
  unfold RoundTrips LogDefine.toString YamlCpp.vectorToString
  rw [hnodes, Option.map_some, Option.map_some, Option.bind_some, logger_fromString h]
  obtain ⟨name, level, formatter, appenders⟩ := v
  simp [level_roundTrips_iff, eq_comm (a := ([] : List LogAppenderDefine))]

end Log

namespace HttpServerConf

theorem server_roundTrips (h : yaml.Lawful) (v : HttpServerConf) :
    RoundTrips (HttpServerConf.toString yaml) (HttpServerConf.fromString yaml) v := by
  have hname : (v.node yaml).get "name" = some (some (.scalar v.name)) := rfl
  have hkeepalive : intAt yaml (v.node yaml) "keepalive" default.keepalive = some v.keepalive := by
    have hget : (v.node yaml).get "keepalive" = some (some (yaml.ofInt v.keepalive)) := rfl
    rw [intAt, hget, Option.map_some, Option.bind_some, h.asInt_ofInt, Option.getD_some]
  have htimeout : intAt yaml (v.node yaml) "timeout" default.timeout = some v.timeout := by
    have hget : (v.node yaml).get "timeout" = some (some (yaml.ofInt v.timeout)) := rfl
    rw [intAt, hget, Option.map_some, Option.bind_some, h.asInt_ofInt, Option.getD_some]
  have haddress : (v.node yaml).get "address" =
      some (if v.address ≠ [] then some (.sequence (v.address.map .scalar)) else none) := by
    unfold node
    split <;> rfl
  have hlist : (v.address.map Yaml.scalar).mapM yaml.asString = some v.address := by
    rw [List.mapM_map]
    exact mapM_eq_self_iff.mpr fun s _ => h.asString_scalar s
  show HttpServerConf.fromString yaml (yaml.emit (v.node yaml)) = some v
  unfold HttpServerConf.fromString
  rw [h.load_emit]
  simp only [Option.bind_eq_bind, Option.bind_some, hname, hkeepalive, htimeout, haddress, h.asString_scalar, Option.getD_some]
  by_cases hnil : v.address = []
  · rw [if_neg (not_not_intro hnil), ← hnil]
    rfl
  · rw [if_pos hnil]
    dsimp only
    rw [h.elements_sequence, hlist]
    rfl

end HttpServerConf
open Log

/-- Which values come back from their texts: the appenders with a level that has a name, and no formatter on stdout; the
    loggers with a level that has a name, and no appenders; the servers all; and of the lists those of such values. -/
theorem casts_roundTrip_iff (h : yaml.Lawful) :
    (∀ v, Typed v → (RoundTrips (LogAppenderDefine.toString yaml) (LogAppenderDefine.fromString yaml) v ↔ AppenderKept v)) ∧
    (∀ v, RoundTrips (LogDefine.toString yaml) (LogDefine.fromString yaml) v ↔ v.level ≤ 5 ∧ v.appenders = []) ∧
    (∀ v, RoundTrips (HttpServerConf.toString yaml) (HttpServerConf.fromString yaml) v) ∧
    (∀ l, (∀ v ∈ l, Typed v) → (RoundTrips (yaml.vectorToString (LogAppenderDefine.toString yaml))
      (yaml.vectorFromString (LogAppenderDefine.fromString yaml)) l ↔ ∀ v ∈ l, AppenderKept v)) ∧
    ∀ l, RoundTrips (yaml.vectorToString (HttpServerConf.toString yaml))
      (yaml.vectorFromString (HttpServerConf.fromString yaml)) l := by
  refine ⟨fun v => appender_roundTrips_iff h, logger_roundTrips_iff h, HttpServerConf.server_roundTrips h,
    fun l htyped => ?_, fun l => ?_⟩
  · refine (vector_roundTrips_iff h _ l).trans (forall₂_congr fun v hv => ?_)
    exact appender_roundTrips_iff h (htyped v hv)
  · exact (vector_roundTrips_iff h _ l).mpr fun v _ => HttpServerConf.server_roundTrips h v

theorem flowYaml_lawful : flowYaml.Lawful where
  load_emit := FlowYaml.load_emit
  asString_scalar _ := rfl
  asInt_ofInt := FlowYaml.readInt_intText
  elements_null := rfl
  elements_scalar _ := rfl
  elements_sequence _ := rfl

/-- A server with two addresses. -/
theorem casts_roundTrip_iff_server : RoundTrips (HttpServerConf.toString flowYaml) (HttpServerConf.fromString flowYaml)
    ⟨[ascii "0.0.0.0:8020", ascii "[::1]:8020"], 1, 60000, ascii "http"⟩ :=
  (casts_roundTrip_iff flowYaml_lawful).2.2.1 _

/-- An appender that writes to stdout with a formatter comes back without it. -/
theorem formatter_lost : ¬∀ yaml : YamlCpp, yaml.Lawful → ∀ v, Typed v →
    RoundTrips (LogAppenderDefine.toString yaml) (LogAppenderDefine.fromString yaml) v := by
  intro h
  have hback := h flowYaml flowYaml_lawful ⟨2, 1, ascii "%m", []⟩ (.inr ⟨rfl, rfl⟩)
  have hkept := (appender_roundTrips_iff flowYaml_lawful (.inr ⟨rfl, rfl⟩)).mp hback
  rcases hkept.2 with htype | hnil
  · cases htype
  · exact absurd hnil (by decide)

end MyHttp
