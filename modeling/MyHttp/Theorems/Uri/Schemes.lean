import MyHttp.Theorems.Uri.Paths

/-! The front of a text: a scheme, an authority without one, or a path. The first segment is read as a scheme and as a
    segment at once. -/

namespace MyHttp
namespace Uri

open Lib.CString Lib.Scan UriParser

variable {s w d t : Bytes} {p j : Nat} {c : UInt8} {r : Option UriReader} {x : UriReader}

/-! ### The first segment -/

def firstNext : Option Unit × Option Nat → UInt8 → Option (Option Unit × Option Nat) :=
  beside (allNext schemeChar) (pctNext segmentChar)

def firstCode (q : Option Unit × Option Nat) : Nat :=
  match q with
  | (some _, _) => 508
  | (none, j) => pctCode 452 3 4 (j.getD 0)

def firstPlaces : List (Option Unit × Option Nat) := [(some (), some 0), (none, some 0), (none, some 1), (none, some 2)]

theorem firstNext_alike {c d : UInt8} (q : Option Unit × Option Nat) (h : Alike classes c d) :
    firstNext q c = firstNext q d := by
  have hscheme : ∀ u, allNext schemeChar u c = allNext schemeChar u d := fun u => allNext_alike (by decide) h
  have hsegment : ∀ j, pctNext segmentChar j c = pctNext segmentChar j d := fun j => pctNext_alike (by decide) h
  simp only [firstNext, beside, hscheme, hsegment]

/-- The first byte; `mark` is set at a letter. -/
def firstEdge (c : UInt8) : Option (Nat × List UriAction) :=
  if alpha.has c then some (508, [.mark]) else (pctNext segmentChar 0 c).map fun j => (firstCode (none, some j), [])

theorem first_rows :
    (∀ q ∈ firstPlaces, ∀ d ∈ kinds.filter (outside (ascii ":/?#")), ∀ q' ∈ firstNext q d, q' ∈ firstPlaces) ∧
      (∀ q ∈ firstPlaces, rowAgrees table (firstCode q) (kinds.filter (outside (ascii ":/?#")))
        (fun c => (firstNext q c).map fun q' => (firstCode q', [])) = true) ∧
      rowAgrees table 451 (kinds.filter (outside (ascii ":/?#"))) firstEdge = true := by
  decide +kernel

theorem first_region : Region table firstCode firstNext firstPlaces (outside (ascii ":/?#")) :=
  region_of_kinds (by decide) (fun q _ _ h => firstNext_alike q h) first_rows.1 first_rows.2.1

theorem edge_first (hc : outside (ascii ":/?#") c = true) : edge table 451 c = firstEdge c := by
  refine edge_of_kinds (by decide) (fun c d h => ?_) first_rows.2.2 hc
  unfold firstEdge
  rw [h alpha (by decide), pctNext_alike (by decide) h]

theorem segment_bytes : ∀ c, (outside (ascii ":/?#") c = true → segmentChar.has c = pathChar.has c) ∧
    (alpha.has c = true ∨ schemeChar.has c = true → pctNext segmentChar 0 c = some 0) := by
  refine forall_byte ?_
  decide +kernel

/-- Before a colon or a slash a segment is read like a path. -/
theorem segment_eq_path (hc : outside (ascii ":/?#") c = true) : pctNext segmentChar j c = pctNext pathChar j c := by
  unfold pctNext
  rw [(segment_bytes c).1 hc]

theorem first_places {c : UInt8} (h : pctNext segmentChar 0 c = some j) : (none, some j) ∈ firstPlaces := by
  have hj := pct_closed 0 (by decide) j h
  simp only [List.mem_cons, List.not_mem_nil, or_false] at hj
  rcases hj with rfl | rfl | rfl <;> decide

/-- A segment is read as both as long as it can be a scheme. -/
theorem outcome_first (hw : ∀ e ∈ c :: w, outside (ascii ":/?#") e = true) :
    outcome s p 451 (some x) (c :: w ++ t) =
      (either (if isScheme (c :: w) then some () else none) ((c :: w).foldlM (pctNext segmentChar) 0)).elim (.ok none)
        fun q => outcome s (p + (c :: w).length) (firstCode q)
          (some (if alpha.has c then { x with mark := some p } else x)) t := by
  have hedge := edge_first (hw c List.mem_cons_self)
  have hrest : ∀ e ∈ w, outside (ascii ":/?#") e = true := fun e he => hw e (List.mem_cons_of_mem _ he)
  have hlen : p + (c :: w).length = p + 1 + w.length := by rw [List.length_cons, ← Nat.add_assoc, Nat.add_right_comm]
  unfold firstEdge at hedge
  rw [hlen, List.cons_append, List.foldlM_cons]
  by_cases hc : alpha.has c = true
  · rw [if_pos hc] at hedge
    rw [outcome_cons hedge, (segment_bytes c).2 (.inl hc), if_pos hc, isScheme, hc, Bool.true_and, ← all_run]
    have hregion := outcome_region (s := s) (p := p + 1) (r := some { x with mark := some p }) (t := t)
      first_region (q := (some (), some 0)) (by decide) hrest
    rw [firstNext, foldlM_beside (.inl (Option.some_ne_none _))] at hregion
    exact hregion
  · rw [if_neg hc] at hedge
    rw [isScheme, Bool.eq_false_iff.mpr hc, Bool.false_and, if_neg Bool.false_ne_true, if_neg Bool.false_ne_true]
    rcases hj : pctNext segmentChar 0 c with _ | j
    · rw [hj] at hedge
      exact outcome_none hedge
    · rw [hj] at hedge
      rw [outcome_cons hedge]
      have hregion := outcome_region (s := s) (p := p + 1) (r := some x) (t := t) first_region
        (q := (none, some j)) (first_places hj) hrest
      rw [firstNext, foldlM_beside (.inr (Option.some_ne_none _))] at hregion
      exact hregion

/-- A scheme is a segment without encoded bytes. -/
theorem segment_of_scheme (h : isScheme w = true) : w.foldlM (pctNext segmentChar) 0 = some 0 := by
  cases w with
  | nil => rfl
  | cons c w =>
    simp only [isScheme, Bool.and_eq_true, List.all_eq_true] at h
    refine foldlM_loop fun e he => ?_
    rcases List.mem_cons.mp he with rfl | he
    · exact (segment_bytes e).2 (.inl h.1)
    · exact (segment_bytes e).2 (.inr (h.2 e he))

/-! ### The front of a text -/

/-- The edges at a colon, and at the slashes before an authority. -/
theorem front_edges : edge table 508 58 = some (509, [.saveScheme]) ∧ (∀ cs ∈ [451, 452, 3, 4], edge table cs 58 = none) ∧
    edge table 451 47 = some (458, []) ∧ edge table 458 47 = some (459, []) := by
  decide +kernel

theorem create_scheme (hne : w ≠ []) (hw : ∀ e ∈ w, outside (ascii ":/?#") e = true) (hs : s = w ++ 58 :: d) :
    create s = if isScheme w then outcome s (w.length + 1) 509 (some ⟨none, { new with scheme := w }⟩) d
      else .ok none := by
  obtain ⟨c, w, rfl⟩ := List.exists_cons_of_ne_nil hne
  rw [create_eq_outcome]
  nth_rewrite 2 [hs]
  rw [outcome_first hw]
  by_cases hscheme : isScheme (c :: w) = true
  · have halpha : alpha.has c = true := by
      simp only [isScheme, Bool.and_eq_true] at hscheme
      exact hscheme.1
    have htext := text_mark (s := s) (p := 0) (u := new) (w := c :: w) (t := 58 :: d) hs
    rw [if_pos hscheme, if_pos hscheme, segment_of_scheme hscheme, if_pos halpha]
    have hboth : either (some ()) (some 0) = some (some (), some 0) := rfl
    have hcode : firstCode (some (), some 0) = 508 := rfl
    rw [hboth, Option.elim_some, hcode, outcome_cons front_edges.1]
    rw [Nat.zero_add] at htext ⊢
    simp only [runs, List.foldl_cons, List.foldl_nil, act, Option.bind_some, UriReader.act, htext, Option.map_some]
  · rw [if_neg hscheme, if_neg hscheme]
    rcases hseg : (c :: w).foldlM (pctNext segmentChar) 0 with _ | j
    · rfl
    · have hplace : firstCode (none, some j) ∈ [451, 452, 3, 4] := by
        have hcode : firstCode (none, some j) = pctCode 452 3 4 j := rfl
        rw [hcode, pctCode]
        split_ifs <;> decide
      have hboth : either none (some j) = some ((none : Option Unit), some j) := rfl
      rw [hboth, Option.elim_some]
      exact outcome_none (front_edges.2.1 _ hplace)

theorem create_slashes (hs : s = 47 :: 47 :: d) : create s = outcome s 2 459 (some ⟨none, new⟩) d := by
  rw [create_eq_outcome]
  nth_rewrite 2 [hs]
  rw [outcome_cons front_edges.2.2.1, outcome_cons front_edges.2.2.2]
  rfl

theorem create_colon (hs : s = 58 :: d) : create s = .ok none := by
  rw [create_eq_outcome]
  nth_rewrite 2 [hs]
  exact outcome_none (front_edges.2.1 451 (by decide))

/-- The states behind the first segment, with how much of an encoded byte has been read there. -/
def firstEnds : List (Nat × Nat) := [(508, 0), (452, 0), (3, 1), (4, 2)]

theorem first_ends : (∀ y ∈ firstEnds, (∀ c ∈ ascii "/?#", edge table y.1 c = edge table (pathCode false y.2) c) ∧
      eofActions y.1 = eofActions (pathCode false y.2) ∧ (451 ≤ y.1 ↔ 451 ≤ pathCode false y.2)) ∧
    (∀ c ∈ ascii "?#", edge table 451 c = edge table (pathCode false 0) c) ∧
    rowAgrees table 458 (kinds.filter (outside (ascii "/"))) (edge table 455) = true := by
  decide +kernel

/-- What comes behind the first segment of a path is read as it is further on in the path. -/
theorem first_behind (hd : Behind (ascii "/?#") d) {X : Nat}
    (hX : (X, j) ∈ firstEnds) : outcome s p X r d = outcome s p (pathCode false j) r d := by
  obtain ⟨hedges, heof, hfinal⟩ := first_ends.1 _ hX
  refine outcome_congr (fun b hb => ?_) heof hfinal
  rcases hd with rfl | ⟨c, e, rfl, hc⟩
  · cases hb
  · obtain rfl := Option.some.inj hb
    exact hedges c hc

/-- A text without a scheme and an authority is read as a path from its front on. -/
theorem outcome_front (hw : ∀ e ∈ w, outside (ascii ":/?#") e = true) (hs : s = w ++ d)
    (hd : Behind (ascii "/?#") d) (htwo : s.take 2 ≠ ascii "//") :
    ∃ m, create s = outcome s 0 (pathCode false 0) (some ⟨m, new⟩) s := by
  cases w with
  | nil =>
    refine ⟨none, ?_⟩
    rw [create_eq_outcome]
    rcases head_cases htwo with hhead | ⟨e, he, hslash⟩
    · refine outcome_congr (fun b hb => ?_) rfl (by decide)
      rw [hs, List.nil_append] at hb hhead
      rcases hd with rfl | ⟨c, e, rfl, hc⟩
      · cases hb
      · obtain rfl := Option.some.inj hb
        rcases List.mem_cons.mp hc with rfl | hc
        · exact absurd rfl hhead
        · exact first_ends.2.1 c hc
    · nth_rewrite 2 [he]
      nth_rewrite 3 [he]
      exact outcome_slash front_edges.2.2.1 first_ends.2.2 rfl (by decide) hslash
  | cons c w =>
    have hpath : ∀ e ∈ c :: w, outside (ascii "?#") e = true := by
      have hsub : ∀ c ∈ ascii "?#", c ∈ ascii ":/?#" := by decide
      exact fun e he => outside_of_subset hsub (hw e he)
    refine ⟨if alpha.has c then some 0 else none, ?_⟩
    rw [create_eq_outcome]
    nth_rewrite 2 [hs]
    nth_rewrite 3 [hs]
    rw [outcome_first hw, outcome_region pathCode_region (by decide) hpath,
      ← foldlM_congr fun e he j => segment_eq_path (hw e he)]
    have hmark : (if alpha.has c = true then (⟨some 0, new⟩ : UriReader) else ⟨none, new⟩) =
        ⟨if alpha.has c then some 0 else none, new⟩ := by split <;> rfl
    by_cases hscheme : isScheme (c :: w) = true
    · have hboth : either (some ()) (some 0) = some (some (), some 0) := rfl
      rw [if_pos hscheme, segment_of_scheme hscheme, hboth, Option.elim_some, Option.elim_some]
      refine Eq.trans ?_ (first_behind hd (X := 508) (by decide))
      rw [hmark]
      rfl
    · rw [if_neg hscheme]
      rcases hseg : (c :: w).foldlM (pctNext segmentChar) 0 with _ | j
      · rfl
      · have hboth : either none (some j) = some ((none : Option Unit), some j) := rfl
        have hplace : (pctCode 452 3 4 j, j) ∈ firstEnds := by
          rcases pct_run hseg with rfl | rfl | rfl <;> decide
        rw [hboth, Option.elim_some, Option.elim_some]
        refine Eq.trans ?_ (first_behind hd hplace)
        rw [hmark]
        rfl

theorem create_path (hw : ∀ e ∈ w, outside (ascii ":/?#") e = true) (hs : s = w ++ d)
    (hd : Behind (ascii "/?#") d) (htwo : s.take 2 ≠ ascii "//") :
    create s = if encoded pathChar (cut (ascii "?#") s).1 then closed (some ⟨none, new⟩) (.of (cut (ascii "?#") s).2)
      else .ok none := by
  obtain ⟨m, hm⟩ := outcome_front hw hs hd htwo
  have hcut : s.drop 0 = (cut (ascii "?#") s).1 ++ (cut (ascii "?#") s).2 := cut_append.symm
  have hin : outcome s 0 (pathCode false 0) (some ⟨m, new⟩) _ = _ :=
    outcome_inPath hcut (fun c hc => outside_cut hc) cut_rest
  rw [cut_append] at hin
  rw [hm, hin]
  rfl

end Uri
end MyHttp
