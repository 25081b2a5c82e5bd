import MyHttp.Config.Registry
import MyHttp.Theorems.Config.LoadFromYaml

/-! A name has one variable, of the type that it was made with, and every call that asks for the name gets this variable or
    nothing. A variable is changed by the nodes under its name and through its own pointers, and by nothing else. -/

namespace MyHttp
namespace Config

open Lib.CString

variable {types : Types} {emit : Yaml → Bytes} {s t : Registry types} {name other : Bytes} {tag : types.Tag} {p q : Nat}
  {var : Var types}

/-! ### Variables -/

namespace Var

/-- The same name and type. -/
def Same (v w : Var types) : Prop := w.name = v.name ∧ w.tag = v.tag

theorem same_setValue (var : Var types) (v : types.Val var.tag) : Same var (var.setValue v) := by
  unfold setValue
  split <;> exact ⟨rfl, rfl⟩

theorem same_fromString (var : Var types) (text : Bytes) : Same var (var.fromString text) := by
  unfold fromString
  split
  · exact same_setValue var _
  · exact ⟨rfl, rfl⟩

theorem same_setThrough (v : types.Val tag) (var : Var types) : Same var (var.setThrough tag v) := by
  unfold setThrough
  split
  · exact same_setValue var _
  · exact ⟨rfl, rfl⟩

end Var

/-- A lookup with this type has been handed the variable of the name. -/
def Made (trace : List (Call types × Outcome)) (name : Bytes) (tag : types.Tag) : Prop :=
  ∃ defaultValue p, (.lookup name tag defaultValue, .ptr p) ∈ trace

namespace Registry

/-! ### What a step keeps -/

/-- No name is given up, and no variable changes its name or its type. -/
structure Grows (s t : Registry types) : Prop where
  datas : ∀ name p, s.datas name = some p → t.datas name = some p
  vars : ∀ (p : Nat) (var : Var types), s.vars[p]? = some var → ∃ var', t.vars[p]? = some var' ∧ Var.Same var var'

theorem Grows.refl (s : Registry types) : Grows s s := ⟨fun _ _ => id, fun _ var h => ⟨var, h, rfl, rfl⟩⟩

theorem Grows.trans {u : Registry types} (h : Grows s t) (h' : Grows t u) : Grows s u where
  datas name p hp := h'.datas name p (h.datas name p hp)
  vars p var hvar := by
    obtain ⟨var', hvar', hname, htag⟩ := h.vars p var hvar
    obtain ⟨var'', hvar'', hname', htag'⟩ := h'.vars p var' hvar'
    exact ⟨var'', hvar'', hname'.trans hname, htag'.trans htag⟩

theorem getElem?_modify (s : Registry types) (f : Var types → Var types) (p q : Nat) (hvar : s.vars[q]? = some var) :
    (s.vars.modify p f)[q]? = some (if p = q then f var else var) := by
  rw [List.getElem?_modify, hvar]
  rfl

theorem grows_modify {f : Var types → Var types} (hf : ∀ var, Var.Same var (f var)) (s : Registry types) (p : Nat) :
    Grows s { s with vars := s.vars.modify p f } := by
  refine ⟨fun _ _ => id, fun q var hvar => ⟨_, s.getElem?_modify f p q hvar, ?_⟩⟩
  split
  · exact hf var
  · exact ⟨rfl, rfl⟩

theorem lookup_cases (s : Registry types) (name : Bytes) (tag : types.Tag) (defaultValue : types.Val tag) :
    (∃ p, s.datas name = some p ∧ s.lookup name tag defaultValue = (s, s.pointerCast p tag)) ∨
      (s.datas name = none ∧ name.all legal = true ∧ s.lookup name tag defaultValue =
        (⟨s.vars ++ [⟨name, tag, defaultValue⟩], Function.update s.datas name (some s.vars.length)⟩, .ptr s.vars.length)) ∨
      (s.datas name = none ∧ name.all legal = false ∧ s.lookup name tag defaultValue = (s, .invalidArgument)) := by
  unfold lookup
  cases hdatas : s.datas name with
  | some p => exact .inl ⟨p, rfl, rfl⟩
  | none =>
    cases hlegal : name.all legal with
    | true => exact .inr (.inl ⟨rfl, rfl, by rw [map_tolower hlegal]; rfl⟩)
    | false => exact .inr (.inr ⟨rfl, rfl, rfl⟩)

theorem grows_lookup (s : Registry types) (name : Bytes) (tag : types.Tag) (defaultValue : types.Val tag) :
    Grows s (s.lookup name tag defaultValue).1 := by
  rcases s.lookup_cases name tag defaultValue with ⟨p, -, heq⟩ | ⟨hnone, -, heq⟩ | ⟨-, -, heq⟩
  · rw [heq]
    exact .refl s
  · rw [heq]
    refine ⟨fun other p hp => ?_, fun p var hvar => ⟨var, ?_, rfl, rfl⟩⟩
    · have hne : other ≠ name := fun heq => by rw [heq, hnone] at hp; cases hp
      exact (Function.update_of_ne hne _ _).trans hp
    · exact (List.getElem?_append_left (List.getElem?_eq_some_iff.mp hvar).1).trans hvar
  · rw [heq]
    exact .refl s

theorem grows_loadNode (s : Registry types) (i : Bytes × Yaml) : Grows s (s.loadNode emit i) := by
  unfold loadNode
  split
  · exact .refl s
  · split
    · exact .refl s
    · exact grows_modify (fun var => var.same_fromString _) s _

theorem grows_foldl (members : List (Bytes × Yaml)) (s : Registry types) : Grows s (members.foldl (loadNode emit) s) := by
  induction members generalizing s with
  | nil => exact .refl s
  | cons i members ih => exact (grows_loadNode s i).trans (ih (s.loadNode emit i))

theorem grows_step (s : Registry types) (c : Call types) : Grows s (s.step emit c).1 := by
  cases c with
  | lookup name tag defaultValue => exact grows_lookup s name tag defaultValue
  | find name tag => exact .refl s
  | lookupBase name => exact .refl s
  | loadFromYaml root => exact grows_foldl _ s
  | setValue p tag v => exact grows_modify (Var.same_setThrough v) s p

/-! ### The names and the trace -/

/-- Every name has a variable of its own, which was made for it, and the trace has handed out no other. -/
structure Kept (s : Registry types) (trace : List (Call types × Outcome)) : Prop where
  named : ∀ name p, s.datas name = some p →
    ∃ var, s.vars[p]? = some var ∧ var.name = name ∧ name.all legal = true ∧ Made trace name var.tag
  handed : ∀ x ∈ trace, ∀ name p, x.1.name = some name → x.2 = .ptr p →
    s.datas name = some p ∧ ∀ tag, x.1.tag = some tag → ∀ var, s.vars[p]? = some var → var.tag = tag

theorem pointerCast_eq (h : s.vars[p]? = some var) (tag : types.Tag) :
    s.pointerCast p tag = if var.tag = tag then .ptr p else .nullptr := by
  rw [pointerCast, h]
  simp

theorem pointerCast_ptr (hvar : s.vars[p]? = some var) (hptr : s.pointerCast p tag = .ptr q) : q = p ∧ var.tag = tag := by
  rw [pointerCast_eq hvar] at hptr
  split at hptr
  · rename_i htag
    cases hptr
    exact ⟨rfl, htag⟩
  · cases hptr

/-- The pointer that a call hands out is in the map afterwards, and has the type that was asked for. -/
theorem ptr_of_step {c : Call types} (hvars : ∀ name p, s.datas name = some p → ∃ var, s.vars[p]? = some var)
    (hname : c.name = some name) (hp : (s.step emit c).2 = .ptr p) :
    (s.step emit c).1.datas name = some p ∧
      ∀ tag, c.tag = some tag → ∀ var, (s.step emit c).1.vars[p]? = some var → var.tag = tag := by
  have hcast : ∀ {q tag}, s.datas name = some q → s.pointerCast q tag = .ptr p →
      s.datas name = some p ∧ ∀ var, s.vars[p]? = some var → var.tag = tag := by
    intro q tag hq hptr
    obtain ⟨var, hvar⟩ := hvars name q hq
    obtain ⟨rfl, htag⟩ := pointerCast_ptr hvar hptr
    exact ⟨hq, fun var' hvar' => by rw [← htag, Option.some.inj (hvar'.symm.trans hvar)]⟩
  cases c with
  | lookup _ tag defaultValue =>
    cases hname
    have hstep : s.step emit (.lookup name tag defaultValue) = s.lookup name tag defaultValue := rfl
    rw [hstep] at hp ⊢
    rcases s.lookup_cases name tag defaultValue with ⟨q, hq, heq⟩ | ⟨-, -, heq⟩ | ⟨-, -, heq⟩ <;> rw [heq] at hp ⊢
    · obtain ⟨hfound, htag⟩ := hcast hq hp
      refine ⟨hfound, fun tag' htag' => ?_⟩
      cases htag'
      exact htag
    · cases hp
      refine ⟨Function.update_self .., fun tag' htag' var hvar => ?_⟩
      cases htag'
      cases (List.getElem?_concat_length ..).symm.trans hvar
      rfl
    · cases hp
  | find _ tag =>
    cases hname
    have hfind : s.find name tag = .ptr p := hp
    unfold find at hfind
    cases hdatas : s.datas name with
    | none => rw [hdatas] at hfind; cases hfind
    | some q =>
      rw [hdatas] at hfind
      obtain ⟨hfound, htag⟩ := hcast hdatas hfind
      refine ⟨hfound, fun tag' htag' => ?_⟩
      cases htag'
      exact htag
  | lookupBase _ =>
    cases hname
    have hbase : s.lookupBase name = .ptr p := hp
    unfold lookupBase at hbase
    cases hdatas : s.datas name with
    | none => rw [hdatas] at hbase; cases hbase
    | some q =>
      rw [hdatas] at hbase
      cases hbase
      exact ⟨hdatas, nofun⟩
  | loadFromYaml root => cases hname
  | setValue q tag v => cases hname

theorem datas_foldl (members : List (Bytes × Yaml)) (s : Registry types) : (members.foldl (loadNode emit) s).datas = s.datas := by
  induction members generalizing s with
  | nil => rfl
  | cons i members ih =>
    have hnode : (s.loadNode emit i).datas = s.datas := by
      unfold loadNode
      split
      · rfl
      · split <;> rfl
    exact (ih _).trans hnode

/-- A name that a step puts into the map was asked for with a type, and its variable is the newest. -/
theorem new_of_step {c : Call types} (hnone : s.datas name = none) (hsome : (s.step emit c).1.datas name = some p) :
    ∃ tag defaultValue, c = .lookup name tag defaultValue ∧ name.all legal = true ∧ (s.step emit c).2 = .ptr p ∧
      (s.step emit c).1.vars[p]? = some ⟨name, tag, defaultValue⟩ := by
  have hold : s.datas name ≠ some p := fun h => by rw [hnone] at h; cases h
  cases c with
  | lookup other tag defaultValue =>
    have hstep : s.step emit (.lookup other tag defaultValue) = s.lookup other tag defaultValue := rfl
    rw [hstep] at hsome ⊢
    rcases s.lookup_cases other tag defaultValue with ⟨q, -, heq⟩ | ⟨-, hlegal, heq⟩ | ⟨-, -, heq⟩ <;> rw [heq] at hsome ⊢
    · exact absurd hsome hold
    · have hupdate : Function.update s.datas other (some s.vars.length) name = some p := hsome
      by_cases hname : name = other
      · subst hname
        rw [Function.update_self] at hupdate
        obtain rfl := Option.some.inj hupdate
        exact ⟨tag, defaultValue, rfl, hlegal, rfl, List.getElem?_concat_length ..⟩
      · rw [Function.update_of_ne hname] at hupdate
        exact absurd hupdate hold
    · exact absurd hsome hold
  | loadFromYaml root => exact absurd ((congrFun (datas_foldl _ s) name).symm.trans hsome) hold
  | find _ _ | lookupBase _ | setValue _ _ _ => exact absurd hsome hold

theorem Kept.step {trace : List (Call types × Outcome)} (h : Kept s trace) (c : Call types) :
    Kept (s.step emit c).1 (trace ++ [(c, (s.step emit c).2)]) := by
  have hgrows : Grows s (s.step emit c).1 := s.grows_step c
  have hmore : ∀ {name tag}, Made trace name tag → Made (trace ++ [(c, (s.step emit c).2)]) name tag :=
    fun ⟨defaultValue, p, hmem⟩ => ⟨defaultValue, p, List.mem_append_left _ hmem⟩
  constructor
  · intro name p hp
    cases hdatas : s.datas name with
    | some q =>
      obtain rfl : q = p := Option.some.inj ((hgrows.datas name q hdatas).symm.trans hp)
      obtain ⟨var, hvar, hname, hlegal, hmade⟩ := h.named name q hdatas
      obtain ⟨var', hvar', hname', htag'⟩ := hgrows.vars q var hvar
      exact ⟨var', hvar', hname'.trans hname, hlegal, htag' ▸ hmore hmade⟩
    | none =>
      obtain ⟨tag, defaultValue, rfl, hlegal, hptr, hvar⟩ := new_of_step hdatas hp
      refine ⟨_, hvar, rfl, hlegal, defaultValue, p, ?_⟩
      rw [hptr]
      exact List.mem_append_right _ List.mem_cons_self
  · intro x hx name p hname hptr
    rcases List.mem_append.mp hx with hx | hx
    · obtain ⟨hdatas, htag⟩ := h.handed x hx name p hname hptr
      refine ⟨hgrows.datas name p hdatas, fun tag hasked var' hvar' => ?_⟩
      obtain ⟨var, hvar, -⟩ := h.named name p hdatas
      obtain ⟨var'', hvar'', -, htag''⟩ := hgrows.vars p var hvar
      obtain rfl := Option.some.inj (hvar''.symm.trans hvar')
      rw [htag'', htag tag hasked var hvar]
    · rw [List.mem_singleton.mp hx] at hname hptr ⊢
      exact ptr_of_step (fun name p hp => (h.named name p hp).imp fun _ hvar => hvar.1) hname hptr

theorem kept_run (calls : List (Call types)) : ∀ {s : Registry types} {trace : List (Call types × Outcome)}, Kept s trace →
    Kept (s.run emit calls).1 (trace ++ (s.run emit calls).2) := by
  induction calls with
  | nil =>
    intro s trace h
    rw [run, List.append_nil]
    exact h
  | cons c calls ih =>
    intro s trace h
    have hfirst : Kept (s.step emit c).1 (trace ++ [(c, (s.step emit c).2)]) := h.step c
    have hrest := ih hfirst
    rw [List.append_assoc] at hrest
    exact hrest

theorem kept_empty : Kept (empty : Registry types) [] := ⟨nofun, nofun⟩

theorem Kept.made_iff {trace : List (Call types × Outcome)} (h : Kept s trace) (hdatas : s.datas name = some p)
    (hvar : s.vars[p]? = some var) : Made trace name tag ↔ var.tag = tag := by
  obtain ⟨var', hvar', -, -, hmade⟩ := h.named name p hdatas
  obtain rfl := Option.some.inj (hvar.symm.trans hvar')
  refine ⟨fun ⟨defaultValue, q, hmem⟩ => ?_, fun htag => htag ▸ hmade⟩
  obtain ⟨hq, htag⟩ := h.handed _ hmem name q rfl rfl
  obtain rfl := Option.some.inj (hdatas.symm.trans hq)
  exact htag tag rfl var hvar

theorem Kept.not_made {trace : List (Call types × Outcome)} (h : Kept s trace) (hdatas : s.datas name = none) :
    ¬Made trace name tag := by
  rintro ⟨defaultValue, p, hmem⟩
  have hp := (h.handed _ hmem name p rfl rfl).1
  rw [hdatas] at hp
  cases hp

theorem pointerCast_nullptr (hvar : s.vars[p]? = some var) : s.pointerCast p tag = .nullptr ↔ var.tag ≠ tag := by
  rw [pointerCast_eq hvar]
  split <;> simp [*]

/-- After any calls, the next lookups fail just for illegal names, for names without a variable and for other types than
    that of the first lookup; and two pointers handed out are the same just when the names are. -/
theorem handles_agree (emit : Yaml → Bytes) (calls : List (Call types)) :
    (∀ name tag defaultValue,
      ((((empty : Registry types).run emit calls).1.lookup name tag defaultValue).2 = .invalidArgument ↔
        name.all legal = false) ∧
      ((((empty : Registry types).run emit calls).1.lookup name tag defaultValue).2 = .nullptr ↔
        ∃ tag', Made ((empty : Registry types).run emit calls).2 name tag' ∧ tag' ≠ tag)) ∧
    (∀ name tag, ((empty : Registry types).run emit calls).1.find name tag = .nullptr ↔
      ¬Made ((empty : Registry types).run emit calls).2 name tag) ∧
    (∀ name, ((empty : Registry types).run emit calls).1.lookupBase name = .nullptr ↔
      ∀ tag, ¬Made ((empty : Registry types).run emit calls).2 name tag) ∧
    ∀ x ∈ ((empty : Registry types).run emit calls).2, ∀ y ∈ ((empty : Registry types).run emit calls).2,
      ∀ name other p q, x.1.name = some name → y.1.name = some other → x.2 = .ptr p → y.2 = .ptr q →
        (p = q ↔ name = other) ∧
        (name = other → ∀ tag tag', x.1.tag = some tag → y.1.tag = some tag' → tag = tag') := by
  have hkept : Kept ((empty : Registry types).run emit calls).1 ((empty : Registry types).run emit calls).2 :=
    kept_run calls kept_empty
  generalize ((empty : Registry types).run emit calls).1 = s at hkept
  generalize ((empty : Registry types).run emit calls).2 = trace at hkept
  refine ⟨fun name tag defaultValue => ?_, fun name tag => ?_, fun name => ?_, ?_⟩
  · rcases s.lookup_cases name tag defaultValue with ⟨p, hp, heq⟩ | ⟨hnone, hlegal, heq⟩ | ⟨hnone, hlegal, heq⟩ <;> rw [heq]
    · obtain ⟨var, hvar, -, hlegal, -⟩ := hkept.named name p hp
      refine ⟨iff_of_false ?_ (by rw [hlegal]; exact Bool.noConfusion), (pointerCast_nullptr hvar).trans ⟨fun hne => ?_, ?_⟩⟩
      · rw [pointerCast_eq hvar]
        split <;> exact Outcome.noConfusion
      · exact ⟨var.tag, (hkept.made_iff hp hvar).mpr rfl, hne⟩
      · rintro ⟨tag', hmade, hne⟩
        rw [(hkept.made_iff hp hvar).mp hmade]
        exact hne
    · exact ⟨iff_of_false Outcome.noConfusion (by rw [hlegal]; exact Bool.noConfusion),
        iff_of_false Outcome.noConfusion fun ⟨tag', hmade, _⟩ => hkept.not_made hnone hmade⟩
    · exact ⟨iff_of_true rfl hlegal,
        iff_of_false Outcome.noConfusion fun ⟨tag', hmade, _⟩ => hkept.not_made hnone hmade⟩
  · unfold find
    cases hp : s.datas name with
    | none => exact iff_of_true rfl (hkept.not_made hp)
    | some p =>
      obtain ⟨var, hvar, -⟩ := hkept.named name p hp
      exact (pointerCast_nullptr hvar).trans (not_congr (hkept.made_iff hp hvar).symm)
  · unfold lookupBase
    cases hp : s.datas name with
    | none => exact iff_of_true rfl fun tag => hkept.not_made hp
    | some p =>
      obtain ⟨var, hvar, -⟩ := hkept.named name p hp
      exact iff_of_false Outcome.noConfusion fun hnot => hnot var.tag ((hkept.made_iff hp hvar).mpr rfl)
  · intro x hx y hy name other p q hname hother hp hq
    obtain ⟨hdatas, htag⟩ := hkept.handed x hx name p hname hp
    obtain ⟨hdatas', htag'⟩ := hkept.handed y hy other q hother hq
    obtain ⟨var, hvar, hvarName, -⟩ := hkept.named name p hdatas
    constructor
    · constructor
      · rintro rfl
        obtain ⟨var', hvar', hvarName', -⟩ := hkept.named other p hdatas'
        obtain rfl := Option.some.inj (hvar.symm.trans hvar')
        exact hvarName.symm.trans hvarName'
      · rintro rfl
        exact Option.some.inj (hdatas.symm.trans hdatas')
    · rintro rfl tag tag' hasked hasked'
      obtain rfl := Option.some.inj (hdatas.symm.trans hdatas')
      rw [← htag tag hasked var hvar, htag' tag' hasked' var hvar]

/-! ### Values -/

/-- The texts of the nodes under a name; the root, which has the empty path, is none of them. -/
def textsFor (emit : Yaml → Bytes) (name : Bytes) (members : List (Bytes × Yaml)) : List Bytes :=
  (members.filter fun i => i.1 = name ∧ name ≠ []).map fun i => textOf emit i.2

/-- What a call makes of the variable of a name, with its pointer. -/
def after (emit : Yaml → Bytes) (name : Bytes) (p : Nat) (var : Var types) : Call types → Var types
  | .loadFromYaml root => (textsFor emit name (listAllMember [] root)).foldl Var.fromString var
  | .setValue q tag v => if q = p then var.setThrough tag v else var
  | _ => var

theorem legal_listAllMember (root : Yaml) (i : Bytes × Yaml) (hi : i ∈ listAllMember [] root) : i.1.all legal = true := by
  rw [listAllMember_eq root [] rfl] at hi
  obtain ⟨x, -, hx⟩ := List.mem_filterMap.mp hi
  obtain ⟨hkeys, heq⟩ := Option.ite_none_right_eq_some.mp hx
  obtain rfl := Option.some.inj heq
  exact all_foldl_extend rfl hkeys

/-- No other name has this pointer. -/
def Alone (s : Registry types) (name : Bytes) (p : Nat) : Prop := s.datas name = some p ∧ ∀ other, s.datas other = some p → other = name

theorem var_foldl {members : List (Bytes × Yaml)} (hlegal : ∀ i ∈ members, i.1.all legal = true) :
    ∀ {s : Registry types} {var : Var types}, Alone s name p → s.vars[p]? = some var →
      (members.foldl (loadNode emit) s).vars[p]? = some ((textsFor emit name members).foldl Var.fromString var) := by
  induction members with
  | nil => exact fun _ hvar => hvar
  | cons i members ih =>
    intro s var halone hvar
    obtain ⟨hi, hlegal⟩ := List.forall_mem_cons.mp hlegal
    have hrest : ∀ {s' var'}, s'.datas = s.datas → s'.vars[p]? = some var' →
        (members.foldl (loadNode emit) s').vars[p]? = some ((textsFor emit name members).foldl Var.fromString var') :=
      fun hdatas hvar' => ih hlegal (by rw [Alone, hdatas]; exact halone) hvar'
    -- a node under another name is not for this variable
    have hskip : ¬(i.1 = name ∧ name ≠ []) → textsFor emit name (i :: members) = textsFor emit name members :=
      fun hother => by rw [textsFor, List.filter_cons_of_neg (by simpa using hother)]; rfl
    rw [List.foldl_cons, loadNode, map_tolower hi]
    by_cases hnil : i.1 = []
    · rw [if_pos hnil, hskip fun h => h.2 (h.1 ▸ hnil)]
      exact hrest rfl hvar
    · rw [if_neg hnil]
      cases hq : s.datas i.1 with
      | none =>
        have hne : i.1 ≠ name := fun heq => by rw [heq, halone.1] at hq; cases hq
        rw [hskip fun h => hne h.1]
        exact hrest rfl hvar
      | some q =>
        have hmodify := s.getElem?_modify (fun var => var.fromString (textOf emit i.2)) q p hvar
        by_cases hname : i.1 = name
        · have hpq : q = p := Option.some.inj (hq.symm.trans (hname ▸ halone.1))
          have htexts : textsFor emit name (i :: members) = textOf emit i.2 :: textsFor emit name members := by
            rw [textsFor, List.filter_cons_of_pos (by simpa using ⟨hname, hname ▸ hnil⟩)]
            rfl
          rw [if_pos hpq] at hmodify
          rw [htexts]
          exact hrest rfl hmodify
        · have hpq : q ≠ p := fun heq => hname (halone.2 i.1 (heq ▸ hq))
          rw [if_neg hpq] at hmodify
          rw [hskip fun h => hname h.1]
          exact hrest rfl hmodify

theorem Kept.alone {trace : List (Call types × Outcome)} (h : Kept s trace) (hp : s.datas name = some p) : Alone s name p := by
  refine ⟨hp, fun other hother => ?_⟩
  obtain ⟨var, hvar, hname, -⟩ := h.named name p hp
  obtain ⟨var', hvar', hname', -⟩ := h.named other p hother
  obtain rfl := Option.some.inj (hvar.symm.trans hvar')
  exact hname'.symm.trans hname

theorem var_step (halone : Alone s name p) (hvar : s.vars[p]? = some var) (c : Call types) :
    (s.step emit c).1.vars[p]? = some (after emit name p var c) := by
  cases c with
  | lookup other tag defaultValue =>
    have hstep : s.step emit (.lookup other tag defaultValue) = s.lookup other tag defaultValue := rfl
    rw [hstep]
    rcases s.lookup_cases other tag defaultValue with ⟨q, -, heq⟩ | ⟨-, -, heq⟩ | ⟨-, -, heq⟩ <;> rw [heq]
    · exact hvar
    · exact (List.getElem?_append_left (List.getElem?_eq_some_iff.mp hvar).1).trans hvar
    · exact hvar
  | loadFromYaml root => exact var_foldl (legal_listAllMember root) halone hvar
  | setValue q tag v => exact s.getElem?_modify (Var.setThrough tag v) q p hvar
  | find _ _ | lookupBase _ => exact hvar

theorem var_run (calls : List (Call types)) : ∀ {s : Registry types} {trace : List (Call types × Outcome)} {var : Var types},
    Kept s trace → s.datas name = some p → s.vars[p]? = some var →
      (s.run emit calls).1.vars[p]? = some (calls.foldl (after emit name p) var) := by
  induction calls with
  | nil => exact fun _ _ hvar => hvar
  | cons c calls ih =>
    intro s trace var hkept hp hvar
    exact ih (hkept.step c) ((s.grows_step c).datas name p hp) (var_step (hkept.alone hp) hvar c)

/-- A pointer that was handed out stays with its variable: whatever is called then, its value is what its own `setValue`
    calls and the nodes under its name make of it, in their order. -/
theorem handle_follows (emit : Yaml → Bytes) (calls calls' : List (Call types)) :
    ∀ x ∈ ((empty : Registry types).run emit calls).2, ∀ name p, x.1.name = some name → x.2 = .ptr p →
      ∃ var, ((empty : Registry types).run emit calls).1.vars[p]? = some var ∧ var.name = name ∧
        ((((empty : Registry types).run emit calls).1.run emit calls').1.vars[p]? =
          some (calls'.foldl (after emit name p) var)) := by
  intro x hx name p hname hp
  have hkept : Kept ((empty : Registry types).run emit calls).1 ((empty : Registry types).run emit calls).2 :=
    kept_run calls kept_empty
  obtain ⟨hdatas, -⟩ := hkept.handed x hx name p hname hp
  obtain ⟨var, hvar, hvarName, -⟩ := hkept.named name p hdatas
  exact ⟨var, hvar, hvarName, var_run calls' hkept hdatas hvar⟩

/-- The variables of strings. -/
def texts : Types := ⟨Unit, inferInstance, fun _ => Bytes, fun v w => v == w, fun _ text => some text⟩

/-- A port that is found in a file, next to a variable that is set through its own pointer. -/
theorem handle_follows_port :
    (((empty : Registry texts).run (fun _ => []) [.lookup (ascii "http.port") () (ascii "80"), .lookup (ascii "log") () []]).1.run
      (fun _ => []) [.setValue 1 () (ascii "on"), .loadFromYaml (.map [(.text "http", .map [(.text "port", .text "8080")])]),
        .setValue 1 () (ascii "off")]).1.vars[0]? = some ⟨ascii "http.port", (), ascii "8080"⟩ := by
  have hfirst : (.lookup (ascii "http.port") () (ascii "80"), .ptr 0) ∈ ((empty : Registry texts).run (fun _ => [])
      [.lookup (ascii "http.port") () (ascii "80"), .lookup (ascii "log") () []]).2 := List.mem_cons_self
  obtain ⟨var, hvar, -, hafter⟩ := handle_follows (fun _ => []) _
    [.setValue 1 () (ascii "on"), .loadFromYaml (.map [(.text "http", .map [(.text "port", .text "8080")])]),
      .setValue 1 () (ascii "off")] _ hfirst (ascii "http.port") 0 rfl rfl
  obtain rfl := Option.some.inj (hvar.symm.trans rfl)
  exact hafter.trans rfl

end Registry
end Config
end MyHttp
