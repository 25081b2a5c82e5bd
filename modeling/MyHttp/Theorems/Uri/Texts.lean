import MyHttp.Theorems.Uri.Scanner

/-! The parts of a URI that are texts of one class of bytes with percent-encoded ones between: the path, the query and the
    fragment. -/

namespace MyHttp
namespace Uri

open Lib.CString Lib.Scan UriParser

variable {s w d t v : Bytes} {p cs j : Nat} {c : UInt8} {k : CharClass} {x : UriReader}

/-! ### Texts of one class -/

def allNext (k : CharClass) (_ : Unit) (c : UInt8) : Option Unit := if k.has c then some () else none

theorem allNext_alike (hk : k ∈ classes) {u : Unit} {c d : UInt8} (h : Alike classes c d) : allNext k u c = allNext k u d := by
  unfold allNext
  rw [h k hk]

theorem all_run : w.foldlM (allNext k) () = if w.all k.has then some () else none := by
  induction w with
  | nil => rfl
  | cons c w ih =>
    rw [List.foldlM_cons, allNext]
    by_cases hc : k.has c = true
    · simp [hc, ih]
    · simp [hc]

/-! ### Percent-encoded texts -/

/-- How many bytes of an encoded byte have been read. -/
def pctNext (k : CharClass) (j : Nat) (c : UInt8) : Option Nat :=
  match j with
  | 0 => if (byte 37).has c then some 1 else if k.has c then some 0 else none
  | 1 => if xdigit.has c then some 2 else none
  | 2 => if xdigit.has c then some 0 else none
  | _ => none

theorem pctNext_alike (hk : k ∈ classes) {c d : UInt8} (h : Alike classes c d) : pctNext k j c = pctNext k j d := by
  unfold pctNext
  rw [h (byte 37) (by decide), h xdigit (by decide), h k hk]

theorem has_pct : (byte 37).has c = decide (c = 37) := byte_has (b := 37)

theorem encoded_iff_run : encoded k w = true ↔ w.foldlM (pctNext k) 0 = some 0 := by
  induction w using encoded.induct with
  | case1 => exact ⟨fun _ => rfl, fun _ => rfl⟩
  | case2 a b w ih =>
    rw [encoded]
    simp only [List.foldlM_cons, pctNext, has_pct, decide_true, if_true, Option.bind_eq_bind, Option.bind_some]
    by_cases ha : xdigit.has a = true
    · by_cases hb : xdigit.has b = true
      · simp [ha, hb, ih]
      · simp [ha, hb]
    · simp [ha]
  | case3 c w hshape ih =>
    rw [encoded]
    · by_cases hc : c = 37
      · subst hc
        simp only [List.foldlM_cons, pctNext, has_pct, decide_true, if_true, Option.bind_eq_bind, Option.bind_some]
        cases w with
        | nil => simp
        | cons a w =>
          cases w with
          | nil => by_cases ha : xdigit.has a = true <;> simp [ha, pctNext]
          | cons b w => exact absurd rfl (hshape a b w rfl)
      · by_cases hk : k.has c = true
        · simp [List.foldlM_cons, pctNext, has_pct, hc, hk, ih]
        · simp [List.foldlM_cons, pctNext, has_pct, hc, hk]
    · exact hshape

/-- Three states that read a text of a class. -/
def pctCode (a b e : Nat) (j : Nat) : Nat := if j = 0 then a else if j = 1 then b else e

theorem pct_closed : ∀ j ∈ [0, 1, 2], ∀ j' ∈ pctNext k j c, j' ∈ [0, 1, 2] := by
  intro j hj j' hj'
  have hj' : pctNext k j c = some j' := hj'
  unfold pctNext at hj'
  split at hj'
  case h_4 => cases hj'
  all_goals
    split_ifs at hj'
    all_goals cases hj'
    all_goals decide

theorem pct_run (h : w.foldlM (pctNext k) 0 = some j) : j = 0 ∨ j = 1 ∨ j = 2 := by
  have hj := foldlM_closed (fun j hj c => pct_closed j hj) (by decide) h
  simpa using hj

theorem pct_region {a b e : Nat} {stop : Bytes} (hstop : ∀ b ∈ stop, byte b.toNat ∈ classes) (hk : k ∈ classes)
    (hrows : ∀ j ∈ [0, 1, 2], rowAgrees table (pctCode a b e j) (kinds.filter (outside stop))
      (fun c => (pctNext k j c).map fun j' => (pctCode a b e j', [])) = true) :
    Region table (pctCode a b e) (pctNext k) [0, 1, 2] (outside stop) :=
  region_of_kinds hstop (fun _ _ _ h => pctNext_alike hk h) (fun j hj _ _ => pct_closed j hj) hrows

theorem pct_rows :
    (∀ j ∈ [0, 1, 2], rowAgrees table (pctCode 454 1 2 j) (kinds.filter (outside []))
      (fun c => (pctNext queryChar j c).map fun j' => (pctCode 454 1 2 j', [])) = true) ∧
    (∀ j ∈ [0, 1, 2], rowAgrees table (pctCode 457 7 8 j) (kinds.filter (outside (ascii "#")))
      (fun c => (pctNext queryChar j c).map fun j' => (pctCode 457 7 8 j', [])) = true) ∧
    (∀ j ∈ [0, 1, 2], rowAgrees table (pctCode 513 243 244 j) (kinds.filter (outside (ascii "?#")))
      (fun c => (pctNext pathChar j c).map fun j' => (pctCode 513 243 244 j', [])) = true) ∧
    ∀ j ∈ [0, 1, 2], rowAgrees table (pctCode 455 5 6 j) (kinds.filter (outside (ascii "?#")))
      (fun c => (pctNext pathChar j c).map fun j' => (pctCode 455 5 6 j', [])) = true := by
  decide +kernel

theorem fragment_region : Region table (pctCode 454 1 2) (pctNext queryChar) [0, 1, 2] (outside []) :=
  pct_region (List.forall_mem_nil _) (by decide) pct_rows.1

theorem query_region : Region table (pctCode 457 7 8) (pctNext queryChar) [0, 1, 2] (outside (ascii "#")) :=
  pct_region (by decide) (by decide) pct_rows.2.1

theorem path_region : Region table (pctCode 513 243 244) (pctNext pathChar) [0, 1, 2] (outside (ascii "?#")) :=
  pct_region (by decide) (by decide) pct_rows.2.2.1

theorem relativePath_region : Region table (pctCode 455 5 6) (pctNext pathChar) [0, 1, 2] (outside (ascii "?#")) :=
  pct_region (by decide) (by decide) pct_rows.2.2.2

/-! ### Cuts -/

variable {stop : Bytes}

theorem cut_append : (cut stop s).1 ++ (cut stop s).2 = s := List.takeWhile_append_dropWhile

theorem outside_cut (hc : c ∈ (cut stop s).1) : outside stop c = true := List.mem_takeWhile_imp hc

/-- The text is at its end, or at one of the bytes. -/
def Behind (stop : Bytes) (t : Bytes) : Prop := t = [] ∨ ∃ c d, t = c :: d ∧ c ∈ stop

theorem cut_rest : Behind stop (cut stop s).2 := by
  rcases hrest : (cut stop s).2 with _ | ⟨c, d⟩
  · exact .inl rfl
  · have hhead := List.head?_dropWhile_not (fun c => decide (c ∉ stop)) s
    have hrest : s.dropWhile (fun c => decide (c ∉ stop)) = c :: d := hrest
    rw [hrest] at hhead
    exact .inr ⟨c, d, rfl, by simpa using hhead⟩

theorem cut_eq (hw : ∀ c ∈ w, outside stop c = true) (ht : Behind stop t) : cut stop (w ++ t) = (w, t) := by
  have hw : ∀ c ∈ w, decide (c ∉ stop) = true := hw
  rw [cut, List.takeWhile_append_of_pos hw, List.dropWhile_append_of_pos hw]
  rcases ht with rfl | ⟨c, d, rfl, hc⟩
  · simp
  · simp [hc]

/-! ### Query and fragment -/

theorem text_mark {u : Uri} (hs : s.drop p = w ++ t) : UriReader.text s (p + w.length) ⟨some p, u⟩ = some w := by
  simp [UriReader.text, hs]

theorem pctCode_pending {a b e : Nat} (hj : j ≠ 0) : pctCode a b e j = b ∨ pctCode a b e j = e := by
  unfold pctCode
  rw [if_neg hj]
  split_ifs
  · exact .inl rfl
  · exact .inr rfl

theorem tail_rows :
    rowAgrees table 453 (kinds.filter (outside []))
      (fun c => (pctNext queryChar 0 c).map fun j => (pctCode 454 1 2 j, [.mark])) = true ∧
    rowAgrees table 456 (kinds.filter (outside (ascii "#")))
      (fun c => (pctNext queryChar 0 c).map fun j => (pctCode 457 7 8 j, [.mark])) = true := by
  decide +kernel

theorem fragment_entrance :
    Entrance 453 (pctCode 454 1 2) (pctNext queryChar) [0, 1, 2] 0 (outside []) :=
  entrance_of_kinds (List.forall_mem_nil _) (fun _ _ _ h => pctNext_alike (by decide) h)
    (fun _ _ => pct_closed 0 (by decide)) tail_rows.1

theorem outcome_fragment (hs : s.drop p = w) : outcome s p 453 (some x) w =
    .ok (if encoded queryChar w then some { x.uri with fragment := w } else none) := by
  cases w with
  | nil =>
    have htext := text_mark (u := x.uri) (w := []) (t := []) hs
    refine outcome_end (y := ⟨none, { x.uri with fragment := [] }⟩) (by decide) ?_
    simpa [runs, eofActions, act, UriReader.act] using htext
  | cons c w =>
    have henter := outcome_enter (s := s) (p := p) (x := x) (t := []) fragment_region fragment_entrance
      (c := c) (w := w) rfl fun _ _ => rfl
    rw [List.append_nil] at henter
    rw [henter]
    rcases hrun : (c :: w).foldlM (pctNext queryChar) 0 with _ | j
    · rw [if_neg (by rw [encoded_iff_run, hrun]; exact nofun)]
      rfl
    · rw [Option.elim_some]
      by_cases hj : j = 0
      · subst hj
        have htext := text_mark (u := x.uri) (t := []) (hs.trans (List.append_nil _).symm)
        rw [if_pos (encoded_iff_run.mpr hrun)]
        refine outcome_end (y := ⟨none, { x.uri with fragment := c :: w }⟩) (by decide) ?_
        simpa [runs, pctCode, eofActions, act, UriReader.act] using htext
      · rw [if_neg (by rw [encoded_iff_run, hrun]; exact fun h => hj (Option.some.inj h))]
        rcases pctCode_pending (a := 454) (b := 1) (e := 2) hj with hcode | hcode
        · rw [hcode]
          exact outcome_unfinished (by decide)
        · rw [hcode]
          exact outcome_unfinished (by decide)

/-- A place where the part of the text that is read ends with some actions, before a fragment or the end. -/
structure Ends (cs : Nat) (fin : List UriAction) : Prop where
  hash : edge table cs 35 = some (453, fin)
  eof : eofActions cs = fin
  final : 451 ≤ cs

instance (cs : Nat) (fin : List UriAction) : Decidable (Ends cs fin) :=
  decidable_of_iff (edge table cs 35 = some (453, fin) ∧ eofActions cs = fin ∧ 451 ≤ cs)
    ⟨fun h => ⟨h.1, h.2.1, h.2.2⟩, fun h => ⟨h.hash, h.eof, h.final⟩⟩

theorem outcome_hash {fin : List UriAction} {r : Option UriReader} {y : UriReader} (h : Ends cs fin)
    (ht : t = [] ∨ ∃ d, t = 35 :: d) (hs : s.drop p = t) (hr : runs s p fin r = some y) :
    outcome s p cs r t = .ok (if ∀ f ∈ fragmentOf t, encoded queryChar f = true then
      some { y.uri with fragment := (fragmentOf t).getD y.uri.fragment } else none) := by
  rcases ht with rfl | ⟨d, rfl⟩
  · have hnone : ∀ f ∈ fragmentOf [], encoded queryChar f = true := fun f hf => by cases hf
    rw [if_pos hnone]
    exact outcome_end h.final (by rw [h.eof]; exact hr)
  · have hd : s.drop (p + 1) = d := by rw [← List.drop_drop, hs]; rfl
    have hfragment : fragmentOf (35 :: d) = some d := rfl
    rw [outcome_cons h.hash, hr, outcome_fragment hd, hfragment]
    simp only [Option.mem_some_iff, forall_eq', Option.getD_some]

theorem query_entrance :
    Entrance 456 (pctCode 457 7 8) (pctNext queryChar) [0, 1, 2] 0 (outside (ascii "#")) :=
  entrance_of_kinds (by decide) (fun _ _ _ h => pctNext_alike (by decide) h)
    (fun _ _ => pct_closed 0 (by decide)) tail_rows.2

theorem query_edges : edge table 456 35 = some (453, [.mark, .saveQuery]) ∧ edge table 457 35 = some (453, [.saveQuery]) ∧
    ∀ cs ∈ [7, 8], edge table cs 35 = none := by
  decide +kernel

theorem ends_emptyQuery : Ends 456 [.mark, .saveQuery] := ⟨query_edges.1, rfl, by decide⟩

theorem ends_query : Ends 457 [.saveQuery] := ⟨query_edges.2.1, rfl, by decide⟩

theorem pending_query (hcs : cs = 7 ∨ cs = 8) (ht : t = [] ∨ ∃ d, t = 35 :: d) :
    outcome s p cs (some x) t = .ok none := by
  have hcs : cs ∈ [7, 8] := List.mem_pair.mpr hcs
  rcases ht with rfl | ⟨d, rfl⟩
  · have hlow : ∀ cs ∈ [7, 8], cs < 451 := by decide
    exact outcome_unfinished (hlow cs hcs)
  · exact outcome_none (query_edges.2.2 cs hcs)

theorem outcome_query (hs : s.drop p = w ++ t) (hw : ∀ c ∈ w, outside (ascii "#") c = true)
    (ht : t = [] ∨ ∃ d, t = 35 :: d) : outcome s p 456 (some x) (w ++ t) =
      .ok (if encoded queryChar w = true ∧ ∀ f ∈ fragmentOf t, encoded queryChar f = true then
        some { x.uri with query := w, fragment := (fragmentOf t).getD x.uri.fragment } else none) := by
  have htext := text_mark (u := x.uri) hs
  have hback : s.drop (p + w.length) = t := by rw [← List.drop_drop, hs, List.drop_left]
  cases w with
  | nil =>
    refine (outcome_hash (p := p) (r := some x) (y := ⟨none, { x.uri with query := [] }⟩) ends_emptyQuery ht hs
      (by simpa [runs, act, UriReader.act] using htext)).trans ?_
    simp [encoded]
  | cons c w =>
    rw [outcome_enter query_region query_entrance (hw c List.mem_cons_self)
      fun d hd => hw d (List.mem_cons_of_mem _ hd)]
    rcases hrun : (c :: w).foldlM (pctNext queryChar) 0 with _ | j
    · rw [if_neg (by rw [encoded_iff_run, hrun]; exact fun h => nomatch h.1)]
      rfl
    · rw [Option.elim_some]
      by_cases hj : j = 0
      · subst hj
        have hencoded := encoded_iff_run.mpr hrun
        refine (outcome_hash (y := ⟨none, { x.uri with query := c :: w }⟩) ends_query ht hback
          (by simpa [runs, act, UriReader.act] using htext)).trans ?_
        simp [hencoded]
      · rw [if_neg (by rw [encoded_iff_run, hrun]; exact fun h => hj (Option.some.inj h.1))]
        exact pending_query (pctCode_pending hj) ht

/-- A URI with a query and a fragment, when they are there. -/
def withTail (u : Uri) (x : Tail) : Uri :=
  { u with query := x.query.getD u.query, fragment := x.fragment.getD u.fragment }

/-- What comes of a reader and of the parts behind the path. -/
def closed (r : Option UriReader) (x : Tail) : Except StringError (Option Uri) :=
  match r with
  | none => .error .null
  | some y => .ok (if x.WellFormed then some (withTail y.uri x) else none)

/-- The parts behind the path, where that ends with some actions. -/
theorem outcome_tail {fin : List UriAction} {r : Option UriReader} (h : Ends cs fin)
    (hquestion : edge table cs 63 = some (456, fin)) (ht : Behind (ascii "?#") t)
    (hs : s.drop p = t) : outcome s p cs r t = closed (runs s p fin r) (.of t) := by
  have hcases : (t = [] ∨ ∃ d, t = 35 :: d) ∨ ∃ d, t = 63 :: d := by
    rcases ht with rfl | ⟨c, d, rfl, hc⟩
    · exact .inl (.inl rfl)
    · rcases List.mem_pair.mp hc with rfl | rfl
      · exact .inr ⟨d, rfl⟩
      · exact .inl (.inr ⟨d, rfl⟩)
  rcases hr : runs s p fin r with _ | y
  · rcases hcases with (rfl | ⟨d, rfl⟩) | ⟨d, rfl⟩
    · rw [outcome_nil, h.eof, hr]
      rfl
    · rw [outcome_cons h.hash, hr, outcome_thrown]
      rfl
    · rw [outcome_cons hquestion, hr, outcome_thrown]
      rfl
  rcases hcases with hhash | ⟨d, rfl⟩
  · have htail : Tail.of t = ⟨none, fragmentOf t⟩ := by
      rcases hhash with rfl | ⟨d, rfl⟩ <;> rfl
    have hwf : (Tail.of t).WellFormed ↔ ∀ f ∈ fragmentOf t, encoded queryChar f = true := by
      rw [htail]
      exact ⟨fun h => h.fragment, fun h => ⟨(fun q hq => by cases hq), h⟩⟩
    rw [outcome_hash h hhash hs hr, if_congr hwf.symm rfl rfl]
    simp only [closed, withTail, htail, Option.getD_none]
  · have hd : s.drop (p + 1) = d := by rw [← List.drop_drop, hs]; rfl
    obtain ⟨w, hw⟩ : ∃ w, (cut (ascii "#") d).1 = w := ⟨_, rfl⟩
    obtain ⟨t, ht⟩ : ∃ t, (cut (ascii "#") d).2 = t := ⟨_, rfl⟩
    have happend : w ++ t = d := by rw [← hw, ← ht]; exact cut_append
    have htail : Tail.of (63 :: d) = ⟨some w, fragmentOf t⟩ := by rw [← hw, ← ht]; rfl
    have hrest : t = [] ∨ ∃ d, t = 35 :: d := by
      have hbehind : Behind (ascii "#") (cut (ascii "#") d).2 := cut_rest
      rcases hbehind with hnil | ⟨c, d', hcons, hc⟩
      · exact .inl (ht.symm.trans hnil)
      · obtain rfl := List.mem_singleton.mp hc
        exact .inr ⟨d', ht.symm.trans hcons⟩
    have hwf : (Tail.of (63 :: d)).WellFormed ↔
        encoded queryChar w = true ∧ ∀ f ∈ fragmentOf t, encoded queryChar f = true := by
      rw [htail]
      exact ⟨fun h => ⟨h.query w rfl, h.fragment⟩, fun h => ⟨fun q hq => Option.some.inj hq ▸ h.1, h.2⟩⟩
    rw [outcome_cons hquestion, hr, ← happend, outcome_query (hd.trans happend.symm)
      (fun c hc => outside_cut (hw ▸ hc)) hrest, happend, if_congr hwf.symm rfl rfl]
    simp only [closed, withTail, htail, Option.getD_some]

end Uri
end MyHttp
