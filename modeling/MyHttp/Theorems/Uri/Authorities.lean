import MyHttp.Theorems.Uri.Literals
import MyHttp.Theorems.Uri.Ports

/-! The authority: what is read of its userinfo, host and port, and what is kept of them. -/

namespace MyHttp
namespace Uri

open Lib.CString Lib.Scan UriParser

variable {s a b d h t u w rest : Bytes} {p q cs m : Nat} {c : UInt8} {v : Uri} {x : UriReader} {r : Option UriReader}
  {user stored : Bool} {ui : Option Bytes}

/-! ### Host and port -/

/-- What comes of a text whose authority ends at a position: it is read if it is good, and nothing is made of the text
    otherwise. -/
structure Settles (s : Bytes) (q : Nat) (stored : Bool) (t : Bytes) (good : Prop) (v : Uri) (empty : Prop)
    (o : Except StringError (Option Uri)) : Prop where
  read : good → ∃ cs r, o = outcome s q cs r t ∧ AuthorityRead s q stored v empty cs r
  bad : ¬good → o = .ok none

/-- From the end of the host on. -/
theorem host_port (hread : HostRead s p user stored v h cs r) (hrest : Behind (ascii ":") rest)
    (hstop : ∀ c ∈ rest.tail, outside (portStop user) c = true) (ht : Behind (ascii "/?#") t)
    (hs : s.drop p = h ++ (rest ++ t)) :
    Settles s (p + (h ++ rest).length) stored t (∀ c ∈ rest.tail, digit.has c = true)
      (withPort { v with host := h } rest.tail) (rest = [58]) (outcome s (p + h.length) cs r (rest ++ t)) := by
  rcases hrest with rfl | ⟨c, d, rfl, hc⟩
  · obtain ⟨as, hcloses, hruns⟩ := hread.closes
    rw [List.append_nil]
    refine ⟨fun _ => ⟨cs, r, rfl, as, _, hcloses, hruns, rfl, ?_, ?_⟩, fun hbad => absurd (List.forall_mem_nil _) hbad⟩
    · rintro ⟨⟩
    · rintro rfl -
      rfl
  · have hc : c = 58 := List.mem_singleton.mp hc
    subst hc
    obtain ⟨as, hedge, hruns⟩ := hread.colon
    have hlen : p + (h ++ 58 :: d).length = p + h.length + 1 + d.length := by
      rw [List.length_append, List.length_cons]
      omega
    have hback : s.drop (p + h.length + 1) = d ++ t := by
      rw [Nat.add_assoc, ← List.drop_drop, hs, ← List.drop_drop, List.drop_left]
      rfl
    rw [hlen, List.cons_append, outcome_cons hedge, hruns]
    constructor
    · intro hd
      have hport : ∃ cs r, outcome s (p + h.length + 1) (colonState user stored) (some ⟨some p, { v with host := h }⟩) (d ++ t) =
          _ ∧ _ := outcome_port hd ht hback
      obtain ⟨cs, r, heq, as, y, hcloses, hruns, hy, hempty, hmark⟩ := hport
      exact ⟨cs, r, heq, as, y, hcloses, hruns, hy, fun h => hempty (List.cons.inj h).2,
        fun hstored h => hmark hstored fun hnil => h (hnil ▸ rfl)⟩
    · exact fun hd => outcome_badPort hstop hd ht

/-! ### The parts of an authority -/

def portOf (rest : Bytes) : Option Bytes := if rest = [] then none else some rest.tail

theorem portOf_digits : (∀ d ∈ portOf rest, ∀ c ∈ d, digit.has c = true) ↔ ∀ c ∈ rest.tail, digit.has c = true := by
  unfold portOf
  split_ifs with h
  · subst h
    exact iff_of_true (fun d hd => by cases hd) (List.forall_mem_nil _)
  · exact ⟨fun h => h _ rfl, fun h d hd => Option.some.inj hd ▸ h⟩

theorem portOf_getD : (portOf rest).getD [] = rest.tail := by
  unfold portOf
  split_ifs with h
  · rw [h]
    rfl
  · rfl

theorem portOf_empty (hrest : Behind (ascii ":") rest) : portOf rest = some [] ↔ rest = [58] := by
  rcases hrest with rfl | ⟨c, d, rfl, hc⟩
  · exact ⟨nofun, nofun⟩
  · have hc : c = 58 := List.mem_singleton.mp hc
    subst hc
    have hport : portOf (58 :: d) = some d := if_neg (List.cons_ne_nil _ _)
    rw [hport]
    exact ⟨fun h => by rw [Option.some.inj h], fun h => by rw [(List.cons.inj h).2]⟩

theorem ofHost_name (hhead : a.head? ≠ some 91) :
    Authority.ofHost ui a = ⟨ui, (cut (ascii ":") a).1, portOf (cut (ascii ":") a).2⟩ := by
  unfold Authority.ofHost
  rw [if_neg hhead]
  rfl

theorem ofHost_open (hw : ∀ c ∈ w, outside (ascii "]") c = true) :
    Authority.ofHost ui (91 :: w) = ⟨ui, 91 :: w, none⟩ := by
  have hcut : cut (ascii "]") (91 :: w) = (91 :: w, []) := by
    have h := cut_eq (w := 91 :: w) (List.forall_mem_cons.mpr ⟨by decide, hw⟩) (.inl rfl : Behind (ascii "]") [])
    rwa [List.append_nil] at h
  have hhead : (91 :: w).head? = some 91 := rfl
  unfold Authority.ofHost
  rw [if_pos hhead, hcut]
  dsimp only
  rw [List.drop_length]
  simp [cut]

theorem ofHost_closed (hw : ∀ c ∈ w, outside (ascii "]") c = true) : Authority.ofHost ui (91 :: w ++ 93 :: b) =
    ⟨ui, 91 :: w ++ 93 :: (cut (ascii ":") b).1, portOf (cut (ascii ":") b).2⟩ := by
  have hcut : cut (ascii "]") (91 :: w ++ 93 :: b) = (91 :: w, 93 :: b) :=
    cut_eq (List.forall_mem_cons.mpr ⟨by decide, hw⟩) (.inr ⟨93, b, rfl, by decide⟩)
  have hcolon : cut (ascii ":") (93 :: b) = (93 :: (cut (ascii ":") b).1, (cut (ascii ":") b).2) := by
    have h := cut_eq (w := 93 :: (cut (ascii ":") b).1) (List.forall_mem_cons.mpr ⟨by decide, fun c hc => outside_cut hc⟩)
      (cut_rest : Behind (ascii ":") (cut (ascii ":") b).2)
    rwa [List.cons_append, cut_append] at h
  have hhead : (91 :: w ++ 93 :: b).head? = some 91 := rfl
  unfold Authority.ofHost
  rw [if_pos hhead, hcut]
  dsimp only
  rw [List.drop_left, hcolon]
  rfl

/-! ### Hosts by their first byte -/

theorem encoded_head {k : CharClass} (hc : pctNext k 0 c = none) : encoded k (c :: w) = false := by
  rw [Bool.eq_false_iff, Ne, encoded_iff_run, List.foldlM_cons, hc]
  exact nofun

theorem isHost_bracket : isHost (91 :: w) ↔ ipLiteral (91 :: w) := by
  have hquad : ¬ipv4Address (91 :: w) = true := by
    rw [ipv4Address_iff_run, List.foldlM_cons]
    rintro ⟨q, hq, -⟩
    cases hq
  have hname : ¬encoded nameChar (91 :: w) = true := by
    rw [encoded_head (by decide)]
    exact nofun
  rw [isHost, or_iff_left]
  rintro (h | h)
  · exact hquad h
  · exact hname h

/-- Nothing can stand between the closing bracket and a colon. -/
theorem isHost_closed (hw : ∀ c ∈ w, outside (ascii "]") c = true) :
    isHost (91 :: w ++ 93 :: b) ↔ LiteralPlace.begun.reads w = true ∧ b = [] := by
  rw [List.cons_append, isHost_bracket]
  constructor
  · rintro ⟨w', heq, hliteral⟩
    have hreads := literal_iff_reads.mp hliteral
    have hw' : ∀ c ∈ w', outside (ascii "]") c = true := fun c hc => decide_eq_true fun hmem => by
      have hc' : c = 93 := List.mem_singleton.mp hmem
      subst hc'
      exact reads_free hreads (by decide) hc
    have heq : w ++ 93 :: b = w' ++ [93] := (List.cons.inj heq).2
    have hcut := congrArg (cut (ascii "]")) heq
    rw [cut_eq hw (.inr ⟨93, b, rfl, by decide⟩), cut_eq hw' (.inr ⟨93, [], rfl, by decide⟩)] at hcut
    obtain ⟨hfront, hback⟩ := Prod.mk.inj hcut
    exact ⟨hfront ▸ hreads, (List.cons.inj hback).2⟩
  · rintro ⟨hreads, rfl⟩
    exact ⟨w, rfl, literal_iff_reads.mpr hreads⟩

theorem not_isHost_open (hw : ∀ c ∈ w, outside (ascii "]") c = true) : ¬isHost (91 :: w) := by
  rw [isHost_bracket]
  rintro ⟨w', heq, -⟩
  have hmem := hw 93 (by rw [(List.cons.inj heq).2]; simp)
  exact absurd hmem (by decide)

/-! ### An authority without its userinfo -/

theorem Behind.mono {k n : Bytes} (hsub : ∀ c ∈ k, c ∈ n) (h : Behind k t) : Behind n t := by
  rcases h with rfl | ⟨c, d, rfl, hc⟩
  · exact .inl rfl
  · exact .inr ⟨c, d, rfl, hsub c hc⟩

/-- A host and a port are good. -/
def Good (a : Authority) : Prop := isHost a.host ∧ ∀ d ∈ a.port, ∀ c ∈ d, digit.has c = true

/-- A URI with a host and a port. -/
def withHost (v : Uri) (a : Authority) : Uri := withPort { v with host := a.host } (a.port.getD [])

/-- The host is read, and what follows is a port or nothing. -/
theorem Settles.ofPort {u : Option Bytes} {o : Except StringError (Option Uri)} (hhost : isHost h) (hrest : Behind (ascii ":") rest)
    (hset : Settles s q stored t (∀ c ∈ rest.tail, digit.has c = true) (withPort { v with host := h } rest.tail)
      (rest = [58]) o) :
    Settles s q stored t (Good ⟨u, h, portOf rest⟩) (withHost v ⟨u, h, portOf rest⟩) (portOf rest = some []) o := by
  have hgood : Good ⟨u, h, portOf rest⟩ ↔ ∀ c ∈ rest.tail, digit.has c = true := by
    rw [Good, portOf_digits]
    exact and_iff_right hhost
  rw [hgood, withHost, portOf_getD, portOf_empty hrest]
  exact hset

theorem outcome_named (hhead : a.head? ≠ some 91) (hstop : ∀ c ∈ a, outside (portStop user) c = true)
    (ht : Behind (ascii "/?#") t) (hs : s.drop p = a ++ t) :
    Settles s (p + a.length) stored t (Good (.ofHost ui a)) (withHost x.uri (.ofHost ui a))
      ((Authority.ofHost ui a).port = some []) (outcome s p (hostStart user stored) (some x) (a ++ t)) := by
  rw [ofHost_name hhead]
  obtain ⟨h, hh⟩ : ∃ h, (cut (ascii ":") a).1 = h := ⟨_, rfl⟩
  obtain ⟨rest, hr⟩ : ∃ rest, (cut (ascii ":") a).2 = rest := ⟨_, rfl⟩
  have happend : h ++ rest = a := by rw [← hh, ← hr]; exact cut_append
  have hrest : Behind (ascii ":") rest := hr ▸ cut_rest
  have hfree : ∀ c ∈ h, outside (ascii ":") c = true := fun c hc => outside_cut (hh ▸ hc)
  rw [hh, hr, ← happend, List.append_assoc]
  rw [← happend] at hs hstop hhead
  rw [List.append_assoc] at hs
  have hname : ∀ c ∈ h, outside (hostStop user) c = true := by
    have hsub : ∀ user, ∀ c ∈ hostStop user, c ∈ ascii ":" ∨ c ∈ portStop user := by decide
    exact fun c hc => outside_of_or (hsub user) (hfree c hc) (hstop c (List.mem_append_left _ hc))
  have hfirst : h.head? ≠ some 91 := by
    cases h with
    | nil => exact nofun
    | cons c h => exact hhead
  by_cases hhost : isHost h
  · obtain ⟨cs, r, heq, hread⟩ := outcome_host (x := x) hname hfirst hs hhost
    have hport : ∀ c ∈ rest.tail, outside (portStop (user && encoded nameChar h)) c = true := by
      have hsub : ∀ user b, ∀ c ∈ portStop (user && b), c ∈ portStop user := by decide
      exact fun c hc => outside_of_subset (hsub user _) (hstop c (List.mem_append_right _ (List.mem_of_mem_tail hc)))
    rw [heq]
    exact (host_port hread hrest hport ht hs).ofPort hhost hrest
  · refine ⟨fun hgood => absurd hgood.1 hhost, fun _ => outcome_badHost hname hfirst hhost ?_⟩
    rcases hrest with rfl | ⟨c, d, rfl, hc⟩
    · have hsub : ∀ user, ∀ c ∈ ascii "/?#", c ∈ hostStop user := by decide
      exact ht.mono (hsub user)
    · have hsub : ∀ user, ∀ c ∈ ascii ":", c ∈ hostStop user := by decide
      exact .inr ⟨c, d ++ t, rfl, hsub user c hc⟩

theorem end_rows : ∀ stored, (Closes stored (literalEnd stored) (hostCloses stored) ∧
      edge table (literalEnd stored) 58 = some (colonState false stored, [.saveHost])) ∧
    rowAgrees table (literalEnd stored) (kinds.filter (outside (ascii ":/?#"))) (fun _ => none) = true := by
  decide +kernel

/-- Behind the bracket there is a colon, or the end of the authority. -/
theorem edge_end (hc : outside (ascii ":/?#") c = true) : edge table (literalEnd stored) c = none :=
  edge_of_kinds (by decide) (fun _ _ _ => rfl) (end_rows stored).2 hc

theorem outcome_bracket (hstop : ∀ c ∈ b, outside (ascii "/?#") c = true) (ht : Behind (ascii "/?#") t)
    (hs : s.drop p = 91 :: b ++ t) :
    Settles s (p + (91 :: b).length) stored t (Good (.ofHost ui (91 :: b))) (withHost x.uri (.ofHost ui (91 :: b)))
      ((Authority.ofHost ui (91 :: b)).port = some []) (outcome s p (hostStart user stored) (some x) (91 :: b ++ t)) := by
  have hedge : edge table (hostStart user stored) 91 = some (literalCode stored .begun, [.mark]) := by
    rw [edge_start]
    cases user <;> cases stored <;> rfl
  obtain ⟨w, hcut⟩ : ∃ w, (cut (ascii "]") b).1 = w := ⟨_, rfl⟩
  have hw : ∀ c ∈ w, outside (ascii "]") c = true := fun c hc => outside_cut (hcut ▸ hc)
  have happend : (cut (ascii "]") b).1 ++ (cut (ascii "]") b).2 = b := cut_append
  have hbehind : Behind (ascii "]") (cut (ascii "]") b).2 := cut_rest
  have hmark : runs s p [.mark] (some x) = some { x with mark := some p } := rfl
  rw [List.cons_append, outcome_cons hedge, hmark]
  rcases hbehind with hnil | ⟨c, e, hcons, hc⟩
  · rw [hcut, hnil, List.append_nil] at happend
    subst happend
    rw [ofHost_open hw]
    exact ⟨fun hgood => absurd hgood.1 (not_isHost_open hw), fun _ => outcome_unclosed hw ht⟩
  · have hc : c = 93 := List.mem_singleton.mp hc
    subst hc
    rw [hcut, hcons] at happend
    subst happend
    obtain ⟨back, hback⟩ : ∃ back, (cut (ascii ":") e).1 = back := ⟨_, rfl⟩
    obtain ⟨rest, hr⟩ : ∃ rest, (cut (ascii ":") e).2 = rest := ⟨_, rfl⟩
    have he : back ++ rest = e := by rw [← hback, ← hr]; exact cut_append
    have hrest : Behind (ascii ":") rest := hr ▸ cut_rest
    have hof : Authority.ofHost ui (91 :: (w ++ 93 :: e)) = ⟨ui, 91 :: w ++ 93 :: back, portOf rest⟩ := by
      rw [← hback, ← hr]
      exact ofHost_closed hw
    have htext : w ++ 93 :: e ++ t = w ++ 93 :: (e ++ t) := by rw [List.append_assoc, List.cons_append]
    rw [hof, htext, outcome_literal hw]
    by_cases hreads : LiteralPlace.begun.reads w = true
    · rw [if_pos hreads]
      cases back with
      | nil =>
        rw [List.nil_append] at he
        subst he
        have hhost : isHost (91 :: w ++ [93]) := (isHost_closed hw).mpr ⟨hreads, rfl⟩
        have hsplit : s.drop p = (91 :: w ++ [93]) ++ (rest ++ t) := by rw [hs]; simp
        have hread : HostRead s p false stored x.uri (91 :: w ++ [93]) (literalEnd stored) (some { x with mark := some p }) :=
          ⟨⟨_, (end_rows stored).1.1, hostCloses_runs hsplit⟩, ⟨_, (end_rows stored).1.2, saveHost_runs hsplit⟩⟩
        have hport : ∀ c ∈ rest.tail, outside (portStop false) c = true := fun c hc =>
          hstop c (List.mem_append_right _ (List.mem_cons_of_mem _ (List.mem_of_mem_tail hc)))
        have hset := (host_port hread hrest hport ht hsplit).ofPort (u := ui) hhost hrest
        have hlen : p + (91 :: w ++ [93]).length = p + 1 + w.length + 1 := by simp; omega
        have hend : p + (91 :: w ++ [93] ++ rest).length = p + (91 :: (w ++ 93 :: rest)).length := by simp
        rw [hlen, hend] at hset
        exact hset
      | cons c back =>
        have hfree : c ∈ (cut (ascii ":") e).1 := hback ▸ List.mem_cons_self
        have hcolon : outside (ascii ":") c = true := outside_cut hfree
        have hc : outside (ascii "/?#") c = true :=
          hstop c (List.mem_append_right _ (List.mem_cons_of_mem _ (he ▸ List.mem_cons_self)))
        refine ⟨fun hgood => absurd ((isHost_closed hw).mp hgood.1).2 (List.cons_ne_nil _ _), fun _ => ?_⟩
        rw [← he, List.cons_append, List.cons_append]
        exact outcome_none (edge_end (outside_of_or (by decide) hcolon hc))
    · rw [if_neg hreads]
      exact ⟨fun hgood => absurd ((isHost_closed hw).mp hgood.1).1 hreads, fun _ => rfl⟩

theorem outcome_ofHost (hstop : ∀ c ∈ a, outside (portStop user) c = true) (ht : Behind (ascii "/?#") t)
    (hs : s.drop p = a ++ t) :
    Settles s (p + a.length) stored t (Good (.ofHost ui a)) (withHost x.uri (.ofHost ui a))
      ((Authority.ofHost ui a).port = some []) (outcome s p (hostStart user stored) (some x) (a ++ t)) := by
  by_cases hhead : a.head? = some 91
  · obtain ⟨b, rfl⟩ := List.head?_eq_some_iff.mp hhead
    have hsub : ∀ user, ∀ c ∈ ascii "/?#", c ∈ portStop user := by decide
    exact outcome_bracket (fun c hc => outside_of_subset (hsub user) (hstop c (List.mem_cons_of_mem _ hc))) ht hs
  · exact outcome_named hhead hstop ht hs

/-! ### Userinfo -/

theorem encoded_name (hw : ∀ c ∈ w, outside (ascii ":") c = true) : encoded userChar w = encoded nameChar w := by
  have hchar : ∀ c, outside (ascii ":") c = true → userChar.has c = nameChar.has c := by
    refine forall_byte ?_
    decide +kernel
  have hrun : w.foldlM (pctNext userChar) 0 = w.foldlM (pctNext nameChar) 0 := foldlM_congr fun c hc j => by
    unfold pctNext
    rw [hchar c (hw c hc)]
  rw [Bool.eq_iff_iff, encoded_iff_run, encoded_iff_run, hrun]

theorem encoded_colon (hw : ∀ c ∈ w, outside (ascii ":") c = true) :
    encoded userChar (w ++ 58 :: d) = true ↔ encoded nameChar w = true ∧ encoded userChar d = true := by
  have hcolon : ∀ j, pctNext userChar j 58 = if j = 0 then some 0 else none := by
    rintro (_ | _ | _ | j) <;> rfl
  rw [← encoded_name hw, encoded_iff_run, encoded_iff_run, encoded_iff_run, List.foldlM_append]
  rcases w.foldlM (pctNext userChar) 0 with _ | j
  · exact ⟨nofun, fun h => absurd h.1 nofun⟩
  · simp only [Option.bind_eq_bind, Option.bind_some, List.foldlM_cons, hcolon]
    by_cases hj : j = 0
    · simp [hj]
    · simp [hj]

/-- What is kept of userinfo: what follows its first colon, if that is a digit. -/
def kept (u : Bytes) : Bytes :=
  if (cut (ascii ":") u).2.tail.head?.any digit.has then (cut (ascii ":") u).2.tail else u

theorem kept_name (hu : ∀ c ∈ u, outside (ascii ":") c = true) : kept u = u := by
  have hcut : cut (ascii ":") u = (u, []) := cut_whole hu
  rw [kept, hcut]
  rfl

theorem kept_colon (hw : ∀ c ∈ w, outside (ascii ":") c = true) :
    kept (w ++ 58 :: d) = if d.head?.any digit.has then d else w ++ 58 :: d := by
  rw [kept, cut_colon hw]
  rfl

/-- Up to a `@`. -/
theorem outcome_at (hhead : u.head? ≠ some 91) (hu : ∀ c ∈ u, outside (portStop true) c = true)
    (hb : ∀ c ∈ b, outside (ascii "/?#") c = true) (ht : Behind (ascii "/?#") t) (hs : s.drop p = u ++ 64 :: (b ++ t)) :
    ∃ h, outcome s p (hostStart true stored) (some x) (u ++ 64 :: (b ++ t)) =
      if encoded userChar u then outcome s (p + u.length + 1) (hostStart false stored)
        (some ⟨none, { x.uri with userinfo := kept u, host := h }⟩) (b ++ t)
      else .ok none := by
  have hname : ∀ h : Bytes, (∀ c ∈ h, c ∈ u) → (∀ c ∈ h, outside (ascii ":") c = true) → ∀ c ∈ h, outside (hostStop true) c = true :=
    fun h hsub hh c hc => outside_of_or (by decide) (hh c hc) (hu c (hsub c hc))
  rcases colon_cases u with hfree | ⟨h, d, rfl, hfree⟩
  · refine ⟨x.uri.host, ?_⟩
    rw [encoded_name hfree, kept_name hfree]
    exact outcome_name (hname u (fun _ hc => hc) hfree) hhead hs
  · have hfirst : h.head? ≠ some 91 := by
      cases h with
      | nil => exact nofun
      | cons c h => exact hhead
    have hstop := hname h (fun c hc => List.mem_append_left _ hc) hfree
    refine ⟨h, ?_⟩
    rw [List.append_assoc, List.cons_append] at hs ⊢
    by_cases hhost : isHost h
    · obtain ⟨cs, r, heq, hread⟩ := outcome_host (x := x) hstop hfirst hs hhost
      obtain ⟨as, hedge, hruns⟩ := hread.colon
      have hback : s.drop (p + h.length + 1) = d ++ 64 :: (b ++ t) := by
        rw [Nat.add_assoc, ← List.drop_drop, hs, ← List.drop_drop, List.drop_left]
        rfl
      have hd : ∀ c ∈ d, outside (portStop true) c = true :=
        fun c hc => hu c (List.mem_append_right _ (List.mem_cons_of_mem _ hc))
      rw [heq, outcome_cons hedge, hruns]
      by_cases hencoded : encoded nameChar h = true
      · have huser : encoded userChar (h ++ 58 :: d) = encoded userChar d := by
          rw [Bool.eq_iff_iff, encoded_colon hfree]
          exact and_iff_right hencoded
        have hlen : p + (h ++ 58 :: d).length = p + h.length + 1 + d.length := by simp; omega
        have htext : (s.drop p).take (p + h.length + 1 + d.length - p) = h ++ 58 :: d := by
          have hcount : p + h.length + 1 + d.length - p = (h ++ 58 :: d).length := by simp; omega
          have happend : h ++ 58 :: (d ++ 64 :: (b ++ t)) = (h ++ 58 :: d) ++ 64 :: (b ++ t) := by simp
          rw [hcount, hs, happend, List.take_left]
        have hkept : keptUserinfo s p (p + h.length + 1 + d.length) d = kept (h ++ 58 :: d) := by
          rw [keptUserinfo, kept_colon hfree, htext]
        rw [hencoded, Bool.true_and, outcome_userinfo hd hback, huser, hkept, hlen]
      · have hnot : ¬encoded userChar (h ++ 58 :: d) = true := fun h => hencoded ((encoded_colon hfree).mp h).1
        have hdigits : ¬∀ c ∈ d ++ 64 :: b, digit.has c = true := fun h => absurd (h 64 (by simp)) (by decide)
        have hfalse : ∀ c ∈ d ++ 64 :: b, outside (portStop false) c = true := by
          intro c hc
          rcases List.mem_append.mp hc with hc | hc
          · exact outside_of_subset (by decide) (hd c hc)
          · rcases List.mem_cons.mp hc with rfl | hc
            · decide
            · exact hb c hc
        have hsplit : d ++ 64 :: (b ++ t) = (d ++ 64 :: b) ++ t := by simp
        rw [if_neg hnot, Bool.eq_false_iff.mpr hencoded, Bool.and_false, hsplit]
        exact outcome_badPort hfalse hdigits ht
    · have hnot : ¬encoded userChar (h ++ 58 :: d) = true := fun h => hhost (.inr (.inr ((encoded_colon hfree).mp h).1))
      rw [if_neg hnot]
      exact outcome_badHost hstop hfirst hhost (.inr ⟨58, _, rfl, by decide⟩)

/-! ### The whole authority -/

/-- A URI with an authority. -/
def withAuthority (v : Uri) (a : Authority) : Uri :=
  withHost { v with userinfo := (a.userinfo.map kept).getD v.userinfo } a

theorem ofHost_userinfo : (Authority.ofHost ui a).userinfo = ui := rfl

theorem wellFormed_iff {a : Authority} : a.WellFormed ↔ (∀ u ∈ a.userinfo, encoded userChar u = true) ∧ Good a :=
  ⟨fun h => ⟨h.userinfo, h.host, h.port⟩, fun h => ⟨h.1, h.2.1, h.2.2⟩⟩

/-- There is no `@` behind a host in brackets. -/
theorem good_bracket (h : Good (.ofHost ui (91 :: b))) : 64 ∉ b := by
  obtain ⟨w, hcut⟩ : ∃ w, (cut (ascii "]") b).1 = w := ⟨_, rfl⟩
  have hw : ∀ c ∈ w, outside (ascii "]") c = true := fun c hc => outside_cut (hcut ▸ hc)
  have happend : (cut (ascii "]") b).1 ++ (cut (ascii "]") b).2 = b := cut_append
  have hbehind : Behind (ascii "]") (cut (ascii "]") b).2 := cut_rest
  rcases hbehind with hnil | ⟨c, e, hcons, hc⟩
  · rw [hcut, hnil, List.append_nil] at happend
    subst happend
    rw [ofHost_open hw] at h
    exact absurd h.1 (not_isHost_open hw)
  · have hc : c = 93 := List.mem_singleton.mp hc
    subst hc
    rw [hcut, hcons] at happend
    subst happend
    have hof : Authority.ofHost ui (91 :: (w ++ 93 :: e)) = _ := ofHost_closed hw
    rw [hof] at h
    obtain ⟨hreads, hnil⟩ := (isHost_closed hw).mp h.1
    have he : (cut (ascii ":") e).1 ++ (cut (ascii ":") e).2 = e := cut_append
    have hcolon : Behind (ascii ":") (cut (ascii ":") e).2 := cut_rest
    have hdigits := portOf_digits.mp h.2
    rw [hnil, List.nil_append] at he
    rw [he] at hcolon hdigits
    intro hmem
    rcases List.mem_append.mp hmem with hmem | hmem
    · exact reads_free hreads (by decide) hmem
    · rcases hcolon with rfl | ⟨c, d, rfl, hc⟩
      · exact absurd hmem (by decide)
      · have hc : c = 58 := List.mem_singleton.mp hc
        subst hc
        have hd : (64 : UInt8) ∈ d := by simpa using hmem
        exact absurd (hdigits 64 hd) (by decide)

/-- An authority is read if its parts are what the grammar says. -/
theorem outcome_authority (hstop : ∀ c ∈ a, outside (ascii "/?#") c = true) (ht : Behind (ascii "/?#") t)
    (hs : s.drop p = a ++ t) :
    Settles s (p + a.length) stored t (Authority.of a).WellFormed (withAuthority x.uri (.of a))
      ((Authority.of a).port = some []) (outcome s p (hostStart true stored) (some x) (a ++ t)) := by
  by_cases hat : (64 : UInt8) ∈ a
  · have hof : Authority.of a = .ofHost (some (cut (ascii "@") a).1) (cut (ascii "@") a).2.tail := if_pos hat
    obtain ⟨u, hu⟩ : ∃ u, (cut (ascii "@") a).1 = u := ⟨_, rfl⟩
    obtain ⟨b, hb⟩ : ∃ b, (cut (ascii "@") a).2 = 64 :: b := by
      have hbehind : Behind (ascii "@") (cut (ascii "@") a).2 := cut_rest
      have happend : (cut (ascii "@") a).1 ++ (cut (ascii "@") a).2 = a := cut_append
      rcases hbehind with hnil | ⟨c, b, hcons, hc⟩
      · rw [hnil, List.append_nil] at happend
        rw [← happend] at hat
        have hnot : outside (ascii "@") 64 = true := outside_cut hat
        exact absurd hnot (by decide)
      · have hc : c = 64 := List.mem_singleton.mp hc
        exact ⟨b, hc ▸ hcons⟩
    have happend : u ++ 64 :: b = a := by rw [← hu, ← hb]; exact cut_append
    have hfree : ∀ c ∈ u, outside (ascii "@") c = true := fun c hc => outside_cut (hu ▸ hc)
    rw [hu, hb, List.tail_cons] at hof
    rw [hof, wellFormed_iff, withAuthority, ofHost_userinfo, ← happend]
    rw [← happend] at hs hstop
    by_cases hhead : u.head? = some 91
    · obtain ⟨u, rfl⟩ := List.head?_eq_some_iff.mp hhead
      have hencoded : encoded userChar (91 :: u) = false := encoded_head (by decide)
      have hset : Settles s _ stored t (Good (.ofHost none (91 :: (u ++ 64 :: b)))) _ _
          (outcome s p (hostStart true stored) (some x) _) :=
        outcome_bracket (fun c hc => hstop c (List.mem_cons_of_mem _ hc)) ht hs
      have hbad := hset.bad
      refine ⟨fun h => ?_, fun _ => hbad fun h => good_bracket h (by simp)⟩
      have hnot := h.1 _ rfl
      rw [hencoded] at hnot
      cases hnot
    · have hb : ∀ c ∈ b, outside (ascii "/?#") c = true :=
        fun c hc => hstop c (List.mem_append_right _ (List.mem_cons_of_mem _ hc))
      have hu : ∀ c ∈ u, outside (portStop true) c = true :=
        fun c hc => outside_of_or (by decide) (hfree c hc) (hstop c (List.mem_append_left _ hc))
      have hsplit : u ++ 64 :: b ++ t = u ++ 64 :: (b ++ t) := by simp
      rw [hsplit] at hs ⊢
      obtain ⟨h, heq⟩ : ∃ h, outcome s p (hostStart true stored) (some x) _ = _ := outcome_at hhead hu hb ht hs
      rw [heq]
      by_cases hencoded : encoded userChar u = true
      · have hback : s.drop (p + u.length + 1) = b ++ t := by
          rw [Nat.add_assoc, ← List.drop_drop, hs, ← List.drop_drop, List.drop_left]
          rfl
        have hlen : p + (u ++ 64 :: b).length = p + u.length + 1 + b.length := by simp; omega
        have hgood : (∀ v ∈ some u, encoded userChar v = true) ∧ Good (.ofHost (some u) b) ↔ Good (.ofHost (some u) b) :=
          and_iff_right fun v hv => Option.some.inj hv ▸ hencoded
        rw [if_pos hencoded, hlen, hgood]
        exact outcome_ofHost (x := ⟨none, { x.uri with userinfo := kept u, host := h }⟩) hb ht hback
      · rw [if_neg hencoded]
        exact ⟨fun h => absurd (h.1 u rfl) hencoded, fun _ => rfl⟩
  · have hof : Authority.of a = .ofHost none a := if_neg hat
    have hgood : (∀ v ∈ (none : Option Bytes), encoded userChar v = true) ∧ Good (.ofHost none a) ↔ Good (.ofHost none a) :=
      and_iff_right fun v hv => by cases hv
    have huser : ∀ c ∈ a, outside (portStop true) c = true := by
      intro c hc
      have hne : outside (ascii "@") c = true := by
        refine decide_eq_true fun hmem => ?_
        have hc' : c = 64 := List.mem_singleton.mp hmem
        exact hat (hc' ▸ hc)
      exact outside_of_or (by decide) hne (hstop c hc)
    rw [hof, wellFormed_iff, withAuthority, ofHost_userinfo, hgood]
    exact outcome_ofHost huser ht hs

end Uri
end MyHttp
