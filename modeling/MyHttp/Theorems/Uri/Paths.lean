import MyHttp.Theorems.Uri.Texts

/-! The path, behind an authority, behind a scheme, and at the front of a text. Only behind a scheme and an authority is it
    saved. -/

namespace MyHttp
namespace Uri

open Lib.CString Lib.Scan UriParser

variable {s w d t v : Bytes} {p cs j : Nat} {c : UInt8} {r : Option UriReader} {x y : UriReader} {stored : Bool}
  {as : List UriAction}

/-! ### In a path -/

def pathCode (stored : Bool) : Nat → Nat := if stored then pctCode 513 243 244 else pctCode 455 5 6

/-- What is run where a path ends. -/
def saves (stored : Bool) : List UriAction := if stored then [.savePath] else []

theorem pathCode_region : Region table (pathCode stored) (pctNext pathChar) [0, 1, 2] (outside (ascii "?#")) := by
  cases stored
  · exact relativePath_region
  · exact path_region

theorem path_edges : (∀ stored, edge table (pathCode stored 0) 35 = some (453, saves stored) ∧
      edge table (pathCode stored 0) 63 = some (456, saves stored)) ∧
    (∀ cs ∈ [5, 6, 243, 244], ∀ c ∈ ascii "?#", edge table cs c = none) ∧
    edge table (pathCode false 0) 47 = some (pathCode false 0, []) := by
  decide +kernel

theorem pathCode_ends : Ends (pathCode stored 0) (saves stored) ∧
    edge table (pathCode stored 0) 63 = some (456, saves stored) := by
  obtain ⟨hhash, hquestion⟩ := path_edges.1 stored
  cases stored
  · exact ⟨⟨hhash, rfl, by decide⟩, hquestion⟩
  · exact ⟨⟨hhash, rfl, by decide⟩, hquestion⟩

theorem pathCode_pending (hj : j ≠ 0) (ht : Behind (ascii "?#") t) : outcome s p (pathCode stored j) (some x) t = .ok none := by
  have hcode : ∀ cs ∈ [5, 6, 243, 244], outcome s p cs (some x) t = .ok none := by
    have hend : ∀ cs ∈ [5, 6, 243, 244], cs < 451 := by decide
    intro cs hcs
    rcases ht with rfl | ⟨c, d, rfl, hc⟩
    · exact outcome_unfinished (hend cs hcs)
    · exact outcome_none (path_edges.2.1 cs hcs c hc)
  cases stored with
  | false =>
    rcases pctCode_pending (a := 455) (b := 5) (e := 6) hj with h | h <;> simp only [pathCode, Bool.false_eq_true, if_false, h]
    · exact hcode 5 (by decide)
    · exact hcode 6 (by decide)
  | true =>
    rcases pctCode_pending (a := 513) (b := 243) (e := 244) hj with h | h <;> simp only [pathCode, if_true, h]
    · exact hcode 243 (by decide)
    · exact hcode 244 (by decide)

theorem outcome_inPath (hs : s.drop p = w ++ t) (hw : ∀ c ∈ w, outside (ascii "?#") c = true) (ht : Behind (ascii "?#") t) :
    outcome s p (pathCode stored 0) (some x) (w ++ t) =
      if encoded pathChar w then closed (runs s (p + w.length) (saves stored) (some x)) (.of t) else .ok none := by
  rw [outcome_region pathCode_region (by decide) hw]
  rcases hrun : w.foldlM (pctNext pathChar) 0 with _ | j
  · rw [if_neg (by rw [encoded_iff_run, hrun]; exact nofun)]
    rfl
  · by_cases hj : j = 0
    · subst hj
      have hback : s.drop (p + w.length) = t := by rw [← List.drop_drop, hs, List.drop_left]
      rw [if_pos (encoded_iff_run.mpr hrun)]
      exact outcome_tail pathCode_ends.1 pathCode_ends.2 ht hback
    · rw [if_neg (by rw [encoded_iff_run, hrun]; exact fun h => hj (Option.some.inj h))]
      exact pathCode_pending hj ht

/-! ### Behind an authority -/

/-- A place where an authority ends with some actions. -/
structure Closes (stored : Bool) (cs : Nat) (as : List UriAction) : Prop where
  slash : edge table cs 47 = some (pathCode stored 0, as)
  question : edge table cs 63 = some (456, as ++ saves stored)
  ends : Ends cs (as ++ saves stored)

instance (stored : Bool) (cs : Nat) (as : List UriAction) : Decidable (Closes stored cs as) :=
  decidable_of_iff (edge table cs 47 = some (pathCode stored 0, as) ∧
      edge table cs 63 = some (456, as ++ saves stored) ∧ Ends cs (as ++ saves stored))
    ⟨fun h => ⟨h.1, h.2.1, h.2.2⟩, fun h => ⟨h.slash, h.question, h.ends⟩⟩

theorem outcome_path (h : Closes stored cs as) (hpath : w = [] ∨ ∃ d, w = 47 :: d)
    (hw : ∀ c ∈ w, outside (ascii "?#") c = true) (ht : Behind (ascii "?#") t) (hs : s.drop p = w ++ t)
    (hr : runs s p as r = some y) : outcome s p cs r (w ++ t) =
      if encoded pathChar w then closed (runs s (p + w.length) (saves stored) (some y)) (.of t) else .ok none := by
  rcases hpath with rfl | ⟨d, rfl⟩
  · rw [List.nil_append, outcome_tail h.ends h.question ht hs, runs_append, hr]
    rfl
  · have hd : s.drop (p + 1) = d ++ t := by rw [← List.drop_drop, hs]; rfl
    have hencoded : encoded pathChar (47 :: d) = encoded pathChar d := by
      rw [encoded]
      · rfl
      · intro a b w h
        cases h
    rw [List.cons_append, outcome_cons h.slash, hr, outcome_inPath hd (fun c hc => hw c (List.mem_cons_of_mem _ hc)) ht,
      hencoded, List.length_cons, ← Nat.add_assoc, Nat.add_right_comm]

/-! ### Without an authority -/

/-- Two states that do the same with what comes. -/
theorem outcome_congr {X Y : Nat} (hedge : ∀ b, d.head? = some b → edge table X b = edge table Y b)
    (heof : eofActions X = eofActions Y) (hfinal : 451 ≤ X ↔ 451 ≤ Y) : outcome s p X r d = outcome s p Y r d := by
  cases d with
  | nil => simp only [outcome_nil, heof, hfinal]
  | cons c d =>
    have hedge := hedge c rfl
    rcases hnext : edge table Y c with _ | ⟨cs, as⟩
    · rw [outcome_none hnext, outcome_none (hedge.trans hnext)]
    · rw [outcome_cons hnext, outcome_cons (hedge.trans hnext)]

/-- A state that reads what comes as another does, if it is not a slash. -/
theorem outcome_like {X Y : Nat} (hrow : rowAgrees table X (kinds.filter (outside (ascii "/"))) (edge table Y) = true)
    (heof : eofActions X = eofActions Y) (hfinal : 451 ≤ X ↔ 451 ≤ Y) (hd : d.head? ≠ some 47) :
    outcome s p X r d = outcome s p Y r d := by
  refine outcome_congr (fun b hb => ?_) heof hfinal
  have hb : outside (ascii "/") b = true := by
    rw [hb] at hd
    simpa [outside, ascii] using hd
  exact edge_of_kinds (by decide) (fun c d h => edge_alike table_asks h) hrow hb

/-- A slash, and none behind it. -/
theorem outcome_slash {X Y : Nat} (hslash : edge table X 47 = some (Y, []))
    (hrow : rowAgrees table Y (kinds.filter (outside (ascii "/"))) (edge table 455) = true)
    (heof : eofActions Y = []) (hfinal : 451 ≤ Y) (hd : d.head? ≠ some 47) :
    outcome s p X r (47 :: d) = outcome s p (pathCode false 0) r (47 :: d) := by
  rw [outcome_cons hslash, outcome_cons path_edges.2.2]
  exact outcome_like hrow heof (iff_of_true hfinal (by decide)) hd

/-- What does not begin with two slashes has none, or one. -/
theorem head_cases (hd : d.take 2 ≠ ascii "//") : d.head? ≠ some 47 ∨ ∃ e, d = 47 :: e ∧ e.head? ≠ some 47 := by
  cases d with
  | nil => exact .inl nofun
  | cons c d =>
    by_cases hc : c = 47
    · subst hc
      refine .inr ⟨d, rfl, fun h => hd ?_⟩
      cases d with
      | nil => cases h
      | cons c d => rw [Option.some.inj h]; rfl
    · exact .inl fun h => hc (Option.some.inj h)

theorem hier_rows : rowAgrees table 509 (kinds.filter (outside (ascii "/"))) (edge table (pathCode false 0)) = true ∧
    edge table 509 47 = some (510, []) ∧
    rowAgrees table 510 (kinds.filter (outside (ascii "/"))) (edge table 455) = true := by
  decide +kernel

/-- Behind a scheme. -/
theorem outcome_hier (hd : d.take 2 ≠ ascii "//") : outcome s p 509 r d = outcome s p (pathCode false 0) r d := by
  rcases head_cases hd with hhead | ⟨e, rfl, he⟩
  · exact outcome_like hier_rows.1 rfl (by decide) hhead
  · exact outcome_slash hier_rows.2.1 hier_rows.2.2 rfl (by decide) he

end Uri
end MyHttp
