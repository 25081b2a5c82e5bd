import MyHttp.Http.ServletDispatch
import Mathlib.Data.List.Induction
import Mathlib.Data.List.Nodup

/-! Which servlet a dispatcher selects, from the calls that it has had. -/

namespace MyHttp
namespace Http
namespace ServletDispatch

open Lib.CString

variable {S : Type} {s : ServletDispatch S} {c : Call S} {calls later : List (Call S)} {globs : List (Bytes × S)}
  {uri pattern : Bytes} {slt notFound : S}

/-! ### What the calls say -/

/-- What a call says about the servlet of just this URI. -/
def Call.servlet (uri : Bytes) : Call S → Option (Option S)
  | .addServlet uri' slt => if uri' = uri then some (some slt) else none
  | .delServlet uri' => if uri' = uri then some none else none
  | _ => none

/-- The servlet that was added last for just this URI, if it was not deleted since. -/
def added (calls : List (Call S)) (uri : Bytes) : Option S := (calls.reverse.findSome? (·.servlet uri)).join

/-- A call that adds or deletes the servlet of a pattern. -/
def Call.concerns (pattern : Bytes) : Call S → Bool
  | .addGlobServlet uri _ => uri = pattern
  | .delGolbServlet uri => uri = pattern
  | _ => false

/-- The patterns that are present with their servlets, the one first whose latest addition is the oldest: an addition
    counts when no later call concerns its pattern. -/
def present : List (Call S) → List (Bytes × S)
  | [] => []
  | .addGlobServlet uri slt :: later =>
    if later.any (·.concerns uri) then present later else (uri, slt) :: present later
  | _ :: later => present later

def Call.newDefault : Call S → Option S
  | .setDefault v => some v
  | _ => none

/-- The default that was set last. -/
def lastDefault (notFound : S) (calls : List (Call S)) : S := (calls.reverse.findSome? Call.newDefault).getD notFound

/-- The servlet that is to be selected. -/
def selected (fnmatch : Bytes → Bytes → Bool) (notFound : S) (calls : List (Call S)) (uri : Bytes) : S :=
  match added calls uri with
  | some slt => slt
  | none =>
    match (present calls).find? fun it => fnmatch it.1 uri with
    | some it => it.2
    | none => lastDefault notFound calls

theorem present_cons (c : Call S) (calls : List (Call S)) : (present (c :: calls) = present calls ∧
      ∀ uri slt, c = .addGlobServlet uri slt → calls.any (·.concerns uri) = true) ∨
    ∃ uri slt, c = .addGlobServlet uri slt ∧ calls.any (·.concerns uri) = false ∧
      present (c :: calls) = (uri, slt) :: present calls := by
  cases c with
  | addGlobServlet uri slt =>
    rw [present]
    by_cases hlater : calls.any (·.concerns uri)
    · refine .inl ⟨if_pos hlater, fun uri' slt' heq => ?_⟩
      cases heq
      exact hlater
    · exact .inr ⟨uri, slt, rfl, Bool.not_eq_true _ ▸ hlater, if_neg hlater⟩
  | _ => exact .inl ⟨rfl, fun _ _ heq => by cases heq⟩

/-- The patterns that are present are those with an addition that no later call concerns. -/
theorem mem_present : (pattern, slt) ∈ present calls ↔
    ∃ before later, calls = before ++ .addGlobServlet pattern slt :: later ∧ later.any (·.concerns pattern) = false := by
  induction calls with
  | nil =>
    refine iff_of_false List.not_mem_nil ?_
    rintro ⟨before, later, heq, -⟩
    cases before <;> cases heq
  | cons c calls ih =>
    constructor
    · intro hmem
      have hlater : (pattern, slt) ∈ present calls → ∃ before later,
          c :: calls = before ++ .addGlobServlet pattern slt :: later ∧ later.any (·.concerns pattern) = false := by
        intro hmem
        obtain ⟨before, later, heq, hnone⟩ := ih.mp hmem
        exact ⟨c :: before, later, congrArg (c :: ·) heq, hnone⟩
      rcases present_cons c calls with ⟨hsame, -⟩ | ⟨uri, slt', rfl, hnone, hmore⟩
      · exact hlater (hsame ▸ hmem)
      · rw [hmore] at hmem
        rcases List.mem_cons.mp hmem with heq | hmem
        · cases heq
          exact ⟨[], calls, rfl, hnone⟩
        · exact hlater hmem
    · rintro ⟨before, later, heq, hnone⟩
      cases before with
      | nil =>
        obtain ⟨rfl, rfl⟩ := List.cons.inj heq
        rw [present, if_neg (by rw [hnone]; exact Bool.false_ne_true)]
        exact List.mem_cons_self
      | cons d before =>
        have hmem := ih.mpr ⟨before, later, (List.cons.inj heq).2, hnone⟩
        rcases present_cons c calls with ⟨hsame, -⟩ | ⟨uri, slt', -, -, hmore⟩
        · exact hsame ▸ hmem
        · exact hmore ▸ List.mem_cons_of_mem _ hmem

/-! ### One call -/

/-- Where no pattern has two entries, the loop erases all that there are. -/
theorem eraseGlob_eq (h : (globs.map (·.1)).Nodup) : eraseGlob uri globs = globs.filter fun it => it.1 ≠ uri := by
  induction globs with
  | nil => rfl
  | cons it globs ih =>
    obtain ⟨hnot, hrest⟩ := List.nodup_cons.mp h
    by_cases heq : it.1 = uri
    · have hothers : ∀ it' ∈ globs, it'.1 ≠ uri := by
        intro it' hmem heq'
        exact hnot (List.mem_map.mpr ⟨it', hmem, heq'.trans heq.symm⟩)
      rw [eraseGlob, if_pos heq, List.filter_cons_of_neg (by simpa using heq)]
      exact (List.filter_eq_self.mpr fun it' hmem => decide_eq_true (hothers it' hmem)).symm
    · rw [eraseGlob, if_neg heq, List.filter_cons_of_pos (by simpa using heq), ih hrest]

/-- A further call takes away the pattern that it concerns, and what it adds comes last. -/
theorem present_append (calls : List (Call S)) (c : Call S) : present (calls ++ [c]) =
    ((present calls).filter fun it => !c.concerns it.1) ++ present [c] := by
  induction calls with
  | nil => rfl
  | cons d calls ih =>
    rcases present_cons d calls with ⟨hsame, hlater⟩ | ⟨uri, slt, rfl, hnone, hmore⟩
    · rw [hsame, ← ih]
      rcases present_cons d (calls ++ [c]) with ⟨hsame, -⟩ | ⟨uri, slt, rfl, hnone, -⟩
      · exact hsame
      · rw [List.any_append, hlater uri slt rfl] at hnone
        cases hnone
    · rw [hmore]
      by_cases hc : c.concerns uri
      · rw [List.filter_cons_of_neg (by simp [hc]), ← ih, List.cons_append, present, List.any_append, List.any_cons, hc]
        simp
      · rw [List.filter_cons_of_pos (by simpa using hc), List.cons_append, List.cons_append, ← ih, present,
          List.any_append, hnone, Bool.false_or, List.any_cons, List.any_nil, Bool.or_false, if_neg hc]

/-! ### Runs -/

/-- The state after calls, as the calls say it is. -/
structure Says (notFound : S) (calls : List (Call S)) (s : ServletDispatch S) : Prop where
  datas : ∀ uri, s.datas uri = added calls uri
  globs : s.globs = present calls
  nodup : (s.globs.map (·.1)).Nodup
  default : s.default = lastDefault notFound calls

theorem added_append (calls : List (Call S)) (c : Call S) (uri : Bytes) :
    added (calls ++ [c]) uri = (c.servlet uri).getD (added calls uri) := by
  unfold added
  rw [List.reverse_append, List.reverse_singleton, List.singleton_append, List.findSome?_cons]
  cases c.servlet uri <;> rfl

theorem lastDefault_append (notFound : S) (calls : List (Call S)) (c : Call S) :
    lastDefault notFound (calls ++ [c]) = c.newDefault.getD (lastDefault notFound calls) := by
  unfold lastDefault
  rw [List.reverse_append, List.reverse_singleton, List.singleton_append, List.findSome?_cons]
  cases c.newDefault <;> rfl

theorem update_eq_getD (datas : Bytes → Option S) (uri uri' : Bytes) (v : Option S) :
    Function.update datas uri' v uri = (if uri' = uri then some v else none).getD (datas uri) := by
  by_cases heq : uri' = uri
  · rw [heq, Function.update_self, if_pos rfl]
    rfl
  · rw [Function.update_of_ne (Ne.symm heq), if_neg heq]
    rfl

theorem eraseGlob_concerns (h : (globs.map (·.1)).Nodup) :
    eraseGlob uri globs = globs.filter fun it => !decide (uri = it.1) := by
  rw [eraseGlob_eq h]
  refine List.filter_congr fun it _ => ?_
  rw [decide_not, decide_eq_decide.mpr eq_comm]

theorem Says.step (h : Says notFound calls s) (c : Call S) : Says notFound (calls ++ [c]) (s.step c) := by
  have hkept : ∀ uri, ((eraseGlob uri s.globs).map (·.1)).Sublist (s.globs.map (·.1)) := fun uri => by
    rw [eraseGlob_eq h.nodup]
    exact List.filter_sublist.map _
  refine ⟨fun uri => ?_, ?_, ?_, ?_⟩
  · rw [added_append, ← h.datas]
    cases c with
    | addServlet uri' slt => exact update_eq_getD ..
    | delServlet uri' => exact update_eq_getD ..
    | _ => rfl
  · rw [present_append, ← h.globs]
    cases c with
    | addGlobServlet uri slt => exact congrArg (· ++ [(uri, slt)]) (eraseGlob_concerns h.nodup)
    | delGolbServlet uri => exact (eraseGlob_concerns h.nodup).trans (List.append_nil _).symm
    | _ => exact ((List.append_nil _).trans (List.filter_eq_self.mpr fun _ _ => rfl)).symm
  · cases c with
    | addGlobServlet uri slt =>
      show ((eraseGlob uri s.globs ++ [(uri, slt)]).map (·.1)).Nodup
      rw [List.map_append]
      refine (h.nodup.sublist (hkept uri)).append (List.nodup_singleton uri) (List.disjoint_singleton.mpr ?_)
      rw [eraseGlob_eq h.nodup]
      intro hmem
      obtain ⟨it, hit, heq⟩ := List.mem_map.mp hmem
      exact absurd heq (of_decide_eq_true (List.mem_filter.mp hit).2)
    | delGolbServlet uri => exact h.nodup.sublist (hkept uri)
    | _ => exact h.nodup
  · rw [lastDefault_append, ← h.default]
    cases c <;> rfl

theorem says_run (notFound : S) (calls : List (Call S)) : Says notFound calls (calls.foldl step (new notFound)) := by
  induction calls using List.reverseRecOn with
  | nil => exact ⟨fun _ => rfl, rfl, List.nodup_nil, rfl⟩
  | append_singleton calls c ih =>
    rw [List.foldl_append]
    exact ih.step c

/-- After any calls the servlet that is selected is the one that the calls say, and no pattern has two entries. -/
theorem getMatchedServlet_eq (fnmatch : Bytes → Bytes → Bool) (notFound : S) (calls : List (Call S)) (uri : Bytes) :
    (calls.foldl step (new notFound)).getMatchedServlet fnmatch uri = selected fnmatch notFound calls uri ∧
      ((calls.foldl step (new notFound)).globs.map (·.1)).Nodup := by
  have h := says_run notFound calls
  refine ⟨?_, h.nodup⟩
  have hstate : calls.foldl step (new notFound) = ⟨added calls, present calls, lastDefault notFound calls⟩ := by
    rw [← h.globs, ← h.default, ← funext h.datas]
  rw [hstate]
  rfl

end ServletDispatch
end Http
end MyHttp
