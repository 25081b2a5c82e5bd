import MyHttp.Theorems.Uri.Components
import MyHttp.Theorems.Http.Serializers

/-! What `toString` writes, given to `Create` again. -/

namespace MyHttp
namespace Uri

open Lib.CString Lib.Machine Lib.Scan UriParser Http

variable {s d h t w : Bytes} {c : UInt8} {k : CharClass} {u v : Uri} {x : Reference} {a : Authority}

/-! ### Bytes of the parts -/

theorem encoded_bytes (h : encoded k w = true) : ∀ c ∈ w, k.has c = true ∨ c = 37 ∨ xdigit.has c = true := by
  induction w using encoded.induct with
  | case1 => exact List.forall_mem_nil _
  | case2 a b w ih =>
    rw [encoded, Bool.and_eq_true, Bool.and_eq_true] at h
    obtain ⟨⟨ha, hb⟩, hw⟩ := h
    exact List.forall_mem_cons.mpr ⟨.inr (.inl rfl), List.forall_mem_cons.mpr ⟨.inr (.inr ha),
      List.forall_mem_cons.mpr ⟨.inr (.inr hb), ih hw⟩⟩⟩
  | case3 c w hshape ih =>
    rw [encoded, Bool.and_eq_true, Bool.and_eq_true] at h
    · exact List.forall_mem_cons.mpr ⟨.inl h.1.2, ih h.2⟩
    · exact hshape

theorem encoded_outside {stop : Bytes} (hstop : ∀ c ∈ stop, k.has c = false ∧ c ≠ 37 ∧ xdigit.has c = false)
    (h : encoded k w = true) : ∀ c ∈ w, outside stop c = true := by
  intro c hc
  have hmem : c ∉ stop := fun hmem => by
    obtain ⟨hk, hpct, hhex⟩ := hstop c hmem
    rcases encoded_bytes h c hc with h | h | h
    · rw [hk] at h
      cases h
    · exact hpct h
    · rw [hhex] at h
      cases h
  exact decide_eq_true hmem

theorem outside_of_free {stop : Bytes} (h : ∀ c ∈ stop, c ∉ w) : ∀ c ∈ w, outside stop c = true := fun c hc => by
  have hmem : c ∉ stop := fun hmem => h c hmem hc
  exact decide_eq_true hmem

/-- A host in brackets has no other bracket in it. -/
theorem isHost_literal (h : isHost w) (hhead : w.head? = some 91) :
    ∃ v, w = 91 :: v ++ [93] ∧ LiteralPlace.begun.reads v = true := by
  obtain ⟨v, rfl⟩ := List.head?_eq_some_iff.mp hhead
  obtain ⟨v', heq, hliteral⟩ := isHost_bracket.mp h
  exact ⟨v', heq, literal_iff_reads.mp hliteral⟩

theorem isHost_plain (h : isHost w) (hhead : w.head? ≠ some 91) : ∀ c ∈ w, outside (ascii ":@/?#") c = true := by
  rcases h with ⟨v, rfl, -⟩ | h | h
  · exact absurd rfl hhead
  · obtain ⟨q, hrun, -⟩ := ipv4Address_iff_run.mp h
    have hsub : ∀ c ∈ ascii ":@/?#", c ∈ 0 :: ascii "[]:@/?#" := by decide
    exact outside_of_free fun c hc => not_mem_of_foldlM (quadNext_free c (hsub c hc)) hrun
  · exact encoded_outside (by decide) h

theorem isHost_outside (h : isHost w) : ∀ c ∈ w, outside (ascii "@/?#") c = true := by
  by_cases hhead : w.head? = some 91
  · obtain ⟨v, rfl, hreads⟩ := isHost_literal h hhead
    have hv : ∀ c ∈ v, outside (ascii "@/?#") c = true := by
      have hsub : ∀ c ∈ ascii "@/?#", c ∈ 0 :: ascii "]@/?#" := by decide
      exact outside_of_free fun c hc => reads_free hreads (hsub c hc)
    intro c hc
    rcases List.mem_append.mp hc with hc | hc
    · rcases List.mem_cons.mp hc with rfl | hc
      · decide
      · exact hv c hc
    · have hc : c = 93 := List.mem_singleton.mp hc
      subst hc
      decide
  · exact fun c hc => outside_of_subset (by decide) (isHost_plain h hhead c hc)

/-! ### Parts that are put together -/

def portPart (port : Option Bytes) : Bytes := port.elim [] (58 :: ·)

def authorityText (a : Authority) : Bytes := a.userinfo.elim [] (· ++ [64]) ++ (a.host ++ portPart a.port)

def tailText (x : Tail) : Bytes := x.query.elim [] (63 :: ·) ++ x.fragment.elim [] (35 :: ·)

theorem portPart_behind {port : Option Bytes} : Behind (ascii ":") (portPart port) := by
  cases port with
  | none => exact .inl rfl
  | some d => exact .inr ⟨58, d, rfl, by decide⟩

theorem portOf_part {port : Option Bytes} : portOf (portPart port) = port := by
  cases port <;> rfl

theorem ofHost_text {ui : Option Bytes} {port : Option Bytes} (h : isHost w) :
    Authority.ofHost ui (w ++ portPart port) = ⟨ui, w, port⟩ := by
  by_cases hhead : w.head? = some 91
  · obtain ⟨v, rfl, hreads⟩ := isHost_literal h hhead
    have hv : ∀ c ∈ v, outside (ascii "]") c = true := by
      have hsub : ∀ c ∈ ascii "]", c ∈ 0 :: ascii "]@/?#" := by decide
      exact outside_of_free fun c hc => reads_free hreads (hsub c hc)
    have hcut : cut (ascii ":") ([] ++ portPart port) = ([], portPart port) := cut_eq (List.forall_mem_nil _) portPart_behind
    have htext : 91 :: v ++ [93] ++ portPart port = 91 :: v ++ 93 :: portPart port := by simp
    rw [List.nil_append] at hcut
    rw [htext, ofHost_closed hv, hcut, portOf_part]
  · have hfirst : (w ++ portPart port).head? ≠ some 91 := by
      cases w with
      | nil => cases port <;> exact nofun
      | cons c w => exact hhead
    have hcolon : ∀ c ∈ w, outside (ascii ":") c = true :=
      fun c hc => outside_of_subset (by decide) (isHost_plain h hhead c hc)
    rw [ofHost_name hfirst, cut_eq hcolon portPart_behind, portOf_part]

theorem digit_of_bounds (h : 48 ≤ c.toNat ∧ c.toNat ≤ 57) : digit.has c = true := by
  simpa [UriParser.digit, CharClass.has] using h

theorem digit_outside {stop : Bytes} (hstop : ∀ c ∈ stop, digit.has c = false) (hd : ∀ c ∈ d, digit.has c = true) :
    ∀ c ∈ d, outside stop c = true := fun c hc => by
  have hmem : c ∉ stop := fun hmem => Bool.false_ne_true ((hstop c hmem).symm.trans (hd c hc))
  exact decide_eq_true hmem

/-- No byte of an authority's text ends it. -/
theorem authorityText_outside (h : a.WellFormed) : ∀ c ∈ authorityText a, outside (ascii "/?#") c = true := by
  intro c hc
  rcases List.mem_append.mp hc with hc | hc
  · rcases huser : a.userinfo with _ | u
    · rw [huser] at hc
      cases hc
    · rw [huser] at hc
      rcases List.mem_append.mp hc with hc | hc
      · exact encoded_outside (by decide) (h.userinfo u huser) c hc
      · have hc : c = 64 := List.mem_singleton.mp hc
        subst hc
        decide
  · rcases List.mem_append.mp hc with hc | hc
    · exact outside_of_subset (by decide) (isHost_outside h.host c hc)
    · rcases hport : a.port with _ | d
      · rw [hport] at hc
        cases hc
      · rw [hport] at hc
        rcases List.mem_cons.mp hc with rfl | hc
        · decide
        · exact digit_outside (by decide) (h.port d hport) c hc

theorem authority_of_text (h : a.WellFormed) : Authority.of (authorityText a) = a := by
  obtain ⟨userinfo, host, port⟩ := a
  have hhost : ∀ ui, Authority.ofHost ui (host ++ portPart port) = ⟨ui, host, port⟩ := fun ui => ofHost_text h.host
  cases userinfo with
  | none =>
    have hfree : (64 : UInt8) ∉ host ++ portPart port := by
      intro hmem
      rcases List.mem_append.mp hmem with hmem | hmem
      · exact absurd (isHost_outside h.host 64 hmem) (by decide)
      · cases port with
        | none => cases hmem
        | some d =>
          rcases List.mem_cons.mp hmem with heq | hmem
          · cases heq
          · exact absurd (h.port d rfl 64 hmem) (by decide)
    exact (if_neg hfree).trans (hhost none)
  | some u =>
    have hu : ∀ c ∈ u, outside (ascii "@") c = true := encoded_outside (by decide) (h.userinfo u rfl)
    have htext : authorityText ⟨some u, host, port⟩ = u ++ 64 :: (host ++ portPart port) := by
      simp [authorityText]
    have hcut : cut (ascii "@") (u ++ 64 :: (host ++ portPart port)) = (u, 64 :: (host ++ portPart port)) :=
      cut_eq hu (.inr ⟨64, _, rfl, by decide⟩)
    have hmem : (64 : UInt8) ∈ u ++ 64 :: (host ++ portPart port) := by simp
    unfold Authority.of
    rw [htext, if_pos hmem, hcut]
    exact hhost (some u)

theorem tailText_behind {x : Tail} : Behind (ascii "?#") (tailText x) := by
  obtain ⟨_ | q, _ | f⟩ := x
  · exact .inl rfl
  · exact .inr ⟨35, f, rfl, by decide⟩
  · exact .inr ⟨63, _, rfl, by decide⟩
  · exact .inr ⟨63, _, rfl, by decide⟩

theorem tail_of_text {x : Tail} (h : x.WellFormed) : Tail.of (tailText x) = x := by
  obtain ⟨_ | q, fragment⟩ := x
  · cases fragment <;> rfl
  · have hq : ∀ c ∈ q, outside (ascii "#") c = true := encoded_outside (by decide) (h.query q rfl)
    have hbehind : Behind (ascii "#") (fragment.elim [] (35 :: ·)) := by
      cases fragment with
      | none => exact .inl rfl
      | some f => exact .inr ⟨35, f, rfl, by decide⟩
    have hcut : cut (ascii "#") (q ++ fragment.elim [] (35 :: ·)) = (q, fragment.elim [] (35 :: ·)) := cut_eq hq hbehind
    have hof : Tail.of (63 :: (q ++ fragment.elim [] (35 :: ·))) = ⟨some q, fragmentOf (fragment.elim [] (35 :: ·))⟩ := by
      refine (if_pos rfl).trans ?_
      rw [List.tail_cons, hcut]
    have hfragment : fragmentOf (fragment.elim [] (35 :: ·)) = fragment := by cases fragment <;> rfl
    exact hof.trans (by rw [hfragment])

/-- A text that is put together from a scheme, an authority, a path and what follows has these parts. -/
theorem reference_of_text {path : Bytes} {x : Tail} (hw : isScheme w = true) (ha : a.WellFormed)
    (hslash : path = [] ∨ ∃ d, path = 47 :: d) (hpath : encoded pathChar path = true) (hx : x.WellFormed) :
    Reference.of (w ++ 58 :: 47 :: 47 :: (authorityText a ++ (path ++ tailText x))) = ⟨some w, some a, path, x⟩ := by
  obtain ⟨d, hd⟩ : ∃ d, authorityText a ++ (path ++ tailText x) = d := ⟨_, rfl⟩
  have hfree : ∀ c ∈ w, outside (ascii ":/?#") c = true := by
    have hscheme : ∀ c, schemeChar.has c = true ∨ alpha.has c = true → outside (ascii ":/?#") c = true := by
      refine forall_byte ?_
      decide +kernel
    intro c hc
    cases w with
    | nil => cases hc
    | cons b w =>
      simp only [isScheme, Bool.and_eq_true, List.all_eq_true] at hw
      rcases List.mem_cons.mp hc with rfl | hc
      · exact hscheme _ (.inr hw.1)
      · exact hscheme c (.inl (hw.2 c hc))
  have hne : w ≠ [] := by
    rintro rfl
    cases hw
  have hbehind : Behind (ascii "/?#") (path ++ tailText x) := by
    rcases hslash with rfl | ⟨d, rfl⟩
    · exact tailText_behind.mono (by decide)
    · exact .inr ⟨47, _, rfl, by decide⟩
  have hscheme : cut (ascii ":/?#") (w ++ 58 :: 47 :: 47 :: d) = (w, 58 :: 47 :: 47 :: d) :=
    cut_eq hfree (.inr ⟨58, _, rfl, by decide⟩)
  have hauthority : cut (ascii "/?#") d = (authorityText a, path ++ tailText x) :=
    hd ▸ cut_eq (authorityText_outside ha) hbehind
  have htail : cut (ascii "?#") (path ++ tailText x) = (path, tailText x) :=
    cut_eq (encoded_outside (by decide) hpath) tailText_behind
  have hof : Reference.of (w ++ 58 :: 47 :: 47 :: d) = .ofHier (some w) (47 :: 47 :: d) := by
    unfold Reference.of
    rw [hscheme]
    exact if_pos ⟨hne, rfl⟩
  rw [hd, hof, ofHier_slashes, hauthority, htail, authority_of_text ha, tail_of_text hx]

/-! ### What `toString` writes -/

def present (w : Bytes) : Option Bytes := if w = [] then none else some w

theorem present_getD : (present w).getD [] = w := by
  unfold present
  split_ifs with h
  · exact h.symm
  · rfl

theorem of_present {f : Bytes → Prop} (h : f w) : ∀ v ∈ present w, f v := by
  unfold present
  split_ifs
  · exact fun v hv => by cases hv
  · exact fun v hv => Option.some.inj hv ▸ h

def writtenAuthority (u : Uri) : Authority :=
  ⟨present u.userinfo, u.host, if u.isDefaultPort then none else some (portText u.port)⟩

def writtenTail (u : Uri) : Tail := ⟨present u.query, present u.fragment⟩

theorem toString_eq : u.toString =
    u.scheme ++ 58 :: 47 :: 47 :: (authorityText (writtenAuthority u) ++ (u.getPath ++ tailText (writtenTail u))) := by
  have hslashes : ascii "://" = [58, 47, 47] ∧ ascii "@" = [64] ∧ ascii ":" = [58] ∧ ascii "?" = [63] ∧ ascii "#" = [35] := by
    decide
  obtain ⟨h₁, h₂, h₃, h₄, h₅⟩ := hslashes
  unfold toString writtenAuthority writtenTail authorityText tailText portPart present
  rw [h₁, h₂, h₃, h₄, h₅]
  by_cases huser : u.userinfo = [] <;> by_cases hquery : u.query = [] <;> by_cases hfragment : u.fragment = [] <;>
    by_cases hport : u.isDefaultPort = true <;> simp [huser, hquery, hfragment, hport]

theorem kept_encoded (h : encoded userChar w = true) : encoded userChar (kept w) = true := by
  rcases colon_cases w with hw | ⟨g, t, rfl, hg⟩
  · rw [kept_name hw]
    exact h
  · rw [kept_colon hg]
    split_ifs
    · exact ((encoded_colon hg).mp h).2
    · exact h

theorem storedPort_eq (hd : digits 10 0 d ≤ 65535) : storedPort d = digits 10 0 d := by
  unfold storedPort
  split_ifs with hnil
  · rw [hnil]
    rfl
  · have hmin : min (2 ^ 63 - 1) (digits 10 0 d : Int) = digits 10 0 d := by omega
    rw [hmin, int32_eq (Int.natCast_nonneg _) (by omega)]

theorem portText_eq {n : Nat} : portText n = decimalText n := by
  have hpos : ¬(n : Int) < 0 := by omega
  rw [portText, if_neg hpos]
  rfl

theorem getPort_of_default (h : u.isDefaultPort = true) : u.getPort = defaultPort u.scheme := by
  rw [getPort_eq]
  by_cases hzero : u.port = 0
  · rw [if_pos hzero]
  · rw [if_neg hzero]
    unfold isDefaultPort at h
    unfold defaultPort
    rw [if_neg hzero] at h
    split_ifs at h ⊢
    · exact of_decide_eq_true h
    · exact of_decide_eq_true h

/-- A path behind an authority is empty or begins with a slash. -/
theorem path_slash (h : (Reference.of s).authority ≠ none) :
    (Reference.of s).path = [] ∨ ∃ d, (Reference.of s).path = 47 :: d := by
  have hier : ∀ scheme d, (Reference.ofHier scheme d).authority ≠ none →
      (Reference.ofHier scheme d).path = [] ∨ ∃ e, (Reference.ofHier scheme d).path = 47 :: e := by
    intro scheme d h
    by_cases htwo : d.take 2 = ascii "//"
    · obtain ⟨e, rfl⟩ := take_two htwo
      have hslash : Hier e 0 _ _ _ := hier_of rfl
      exact hslash.slash
    · rw [ofHier_path htwo] at h
      exact absurd rfl h
  unfold Reference.of at h ⊢
  dsimp only at h ⊢
  split_ifs at h ⊢ with hscheme
  · exact hier _ _ h
  · exact hier _ _ h

/-- A URI whose fields are parts of a text with an authority. -/
structure Writable (u : Uri) : Prop where
  scheme : isScheme u.scheme = true
  userinfo : encoded userChar u.userinfo = true
  host : isHost u.host
  port : ∃ n : Nat, u.port = n ∧ n ≤ 65535
  path : encoded pathChar u.path = true
  slash : u.path = [] ∨ ∃ d, u.path = 47 :: d
  query : encoded queryChar u.query = true
  fragment : encoded queryChar u.fragment = true

theorem getPath_slash (h : Writable u) : encoded pathChar u.getPath = true ∧ (u.getPath = [] ∨ ∃ d, u.getPath = 47 :: d) := by
  rw [getPath]
  by_cases hnil : u.path = []
  · rw [if_pos hnil]
    exact ⟨by decide, .inr ⟨[], rfl⟩⟩
  · rw [if_neg hnil]
    exact ⟨h.path, h.slash⟩

theorem writtenAuthority_port (h : Writable u) (hdefault : ¬u.isDefaultPort = true) :
    ∃ n : Nat, (writtenAuthority u).port = some (decimalText n) ∧ u.port = n ∧ n ≤ 65535 := by
  obtain ⟨n, hn, hle⟩ := h.port
  have hport : (writtenAuthority u).port = some (portText u.port) := if_neg hdefault
  rw [hn, portText_eq] at hport
  exact ⟨n, hport, hn, hle⟩

theorem writtenAuthority_none (hdefault : u.isDefaultPort = true) : (writtenAuthority u).port = none := if_pos hdefault

theorem writtenAuthority_good (h : Writable u) : (writtenAuthority u).WellFormed := by
  refine ⟨of_present h.userinfo, h.host, fun d hd => ?_⟩
  by_cases hdefault : u.isDefaultPort = true
  · rw [writtenAuthority_none hdefault] at hd
    cases hd
  · obtain ⟨n, hport, -, -⟩ := writtenAuthority_port h hdefault
    rw [hport] at hd
    obtain rfl := Option.some.inj hd
    exact fun c hc => digit_of_bounds (digits_of_decimalText hc)

/-- What is read of the text. -/
def reread (u : Uri) : Uri :=
  ⟨u.scheme, kept u.userinfo, u.host, if u.isDefaultPort then 0 else u.port, u.getPath, u.query, u.fragment⟩

theorem Writable.create (h : Writable u) : create u.toString = .ok (some (reread u)) := by
  have hwritten := writtenAuthority_good h
  have htail : (writtenTail u).WellFormed := ⟨of_present h.query, of_present h.fragment⟩
  obtain ⟨hpath, hslash⟩ := getPath_slash h
  have href : Reference.of u.toString = ⟨some u.scheme, some (writtenAuthority u), u.getPath, writtenTail u⟩ := by
    rw [toString_eq]
    exact reference_of_text h.scheme hwritten hslash hpath htail
  refine accepted_iff.mpr ⟨?_, ?_, ?_, ?_⟩
  · rw [href]
    exact ⟨fun v hv => Option.some.inj hv ▸ h.scheme, fun b hb => Option.some.inj hb ▸ hwritten, hpath, nofun⟩
  · rw [href]
    rintro ⟨-, b, hb, hempty⟩
    obtain rfl := Option.some.inj hb
    by_cases hdefault : u.isDefaultPort = true
    · rw [writtenAuthority_none hdefault] at hempty
      cases hempty
    · obtain ⟨n, hport, -, -⟩ := writtenAuthority_port h hdefault
      rw [hport] at hempty
      exact decimalText_ne_nil (Option.some.inj hempty)
  · rw [href]
    exact htail
  · have hport : storedPort ((writtenAuthority u).port.getD []) = if u.isDefaultPort then 0 else u.port := by
      by_cases hdefault : u.isDefaultPort = true
      · rw [writtenAuthority_none hdefault, if_pos hdefault]
        rfl
      · obtain ⟨n, hport, hn, hle⟩ := writtenAuthority_port h hdefault
        rw [hport, if_neg hdefault, hn, Option.getD_some, storedPort_eq (digits_decimalText ▸ hle), digits_decimalText]
    have huser : (writtenAuthority u).userinfo.getD [] = u.userinfo := present_getD
    have hquery : (writtenTail u).query.getD [] = u.query := present_getD
    have hfragment : (writtenTail u).fragment.getD [] = u.fragment := present_getD
    rw [href, uriOf_eq, if_pos ⟨nofun, nofun⟩]
    simp only [userinfoOf, hostOf, digitsOf, Option.bind_some, Option.map_some, Option.getD_some, huser, hport, hquery,
      hfragment]
    rfl

/-- The getters of both return the same. -/
structure SameGetters (u v : Uri) : Prop where
  scheme : u.scheme = v.scheme
  userinfo : u.userinfo = v.userinfo
  host : u.host = v.host
  port : u.getPort = v.getPort
  path : u.getPath = v.getPath
  query : u.query = v.query
  fragment : u.fragment = v.fragment

theorem same_reread : SameGetters u (reread u) ↔ kept u.userinfo = u.userinfo := by
  have hport : u.getPort = (reread u).getPort := by
    rw [getPort_eq (u := reread u)]
    by_cases hdefault : u.isDefaultPort = true
    · have hzero : (reread u).port = 0 := if_pos hdefault
      rw [if_pos hzero, getPort_of_default hdefault]
      rfl
    · have hsame : (reread u).port = u.port := if_neg hdefault
      rw [hsame, getPort_eq]
      rfl
  have hpath : u.getPath = (reread u).getPath := by
    have hne : u.getPath ≠ [] := by
      unfold getPath
      split_ifs with h
      · decide
      · exact h
    exact (if_neg hne).symm
  constructor
  · exact fun h => h.userinfo.symm
  · exact fun h => ⟨rfl, h.symm, rfl, hport, hpath, rfl, rfl⟩

/-- An accepted text with a scheme, an authority and a port of 16 bits gives such a URI. -/
theorem writable_of_accepted (h : create s = .ok (some u)) (hscheme : (Reference.of s).scheme ≠ none)
    (ha : (Reference.of s).authority = some a) (hport : ∀ d ∈ a.port, digits 10 0 d ≤ 65535) :
    Writable u ∧ u.userinfo = kept (a.userinfo.getD []) := by
  obtain ⟨hgood, -, htail, hu⟩ := accepted_iff.mp h
  have hauthority : (Reference.of s).authority ≠ none := ha ▸ Option.some_ne_none a
  have hslash := path_slash hauthority
  obtain ⟨w, hw⟩ := Option.ne_none_iff_exists'.mp hscheme
  have hwf := hgood.authority a ha
  have huser : encoded userChar (a.userinfo.getD []) = true := by
    rcases hd : a.userinfo with _ | d
    · rfl
    · exact hwf.userinfo d hd
  have hfield : ∀ o : Option Bytes, (∀ q ∈ o, encoded queryChar q = true) → encoded queryChar (o.getD []) = true := by
    intro o ho
    cases o with
    | none => rfl
    | some q => exact ho q rfl
  have hnumber : digits 10 0 (a.port.getD []) ≤ 65535 := by
    rcases hd : a.port with _ | d
    · exact Nat.zero_le _
    · exact hport d hd
  have hparts : userinfoOf (.of s) = a.userinfo.getD [] ∧ hostOf (.of s) = a.host ∧ digitsOf (.of s) = a.port.getD [] := by
    rw [userinfoOf, hostOf, digitsOf, ha]
    exact ⟨rfl, rfl, rfl⟩
  rw [uriOf_eq, if_pos ⟨hscheme, hauthority⟩, hparts.1, hparts.2.1, hparts.2.2, hw, storedPort_eq hnumber] at hu
  subst hu
  exact ⟨⟨hgood.scheme w hw, kept_encoded huser, hwf.host, ⟨_, rfl, hnumber⟩, hgood.path, hslash, hfield _ htail.query,
    hfield _ htail.fragment⟩, rfl⟩

/-- The round trip holds unless a digit follows the first colon of the userinfo, and another the first colon behind it. -/
theorem uri_roundTrips_iff (h : create s = .ok (some u)) (hscheme : (Reference.of s).scheme ≠ none)
    (ha : (Reference.of s).authority = some a) (hport : ∀ d ∈ a.port, digits 10 0 d ≤ 65535) :
    (∃ v, create u.toString = .ok (some v) ∧ SameGetters u v) ↔
      ¬(ColonDigit (a.userinfo.getD []) ∧ ColonDigit (cut (ascii ":") (a.userinfo.getD [])).2.tail) := by
  obtain ⟨hwritable, huser⟩ := writable_of_accepted h hscheme ha hport
  have hsame : (∃ v, create u.toString = .ok (some v) ∧ SameGetters u v) ↔ ¬ColonDigit u.userinfo := by
    rw [hwritable.create, ← kept_eq_iff, ← same_reread]
    constructor
    · rintro ⟨v, hv, hsame⟩
      exact Option.some.inj (Except.ok.inj hv) ▸ hsame
    · exact fun hsame => ⟨_, rfl, hsame⟩
  rw [hsame, huser, not_iff_not]
  unfold kept
  split_ifs with hdigit
  · exact (and_iff_right hdigit).symm
  · exact iff_of_false hdigit fun h => hdigit h.1

theorem uri_roundTrips_user : ∃ v, create (toString ⟨ascii "http", ascii "user:secret", ascii "[::1]", 8080, [], [], []⟩) =
    .ok (some v) ∧ SameGetters ⟨ascii "http", ascii "user:secret", ascii "[::1]", 8080, [], [], []⟩ v := by
  have haccepted : create (ascii "http://user:secret@[::1]:8080") =
      .ok (some ⟨ascii "http", ascii "user:secret", ascii "[::1]", 8080, [], [], []⟩) := by
    decide +kernel
  exact (uri_roundTrips_iff (a := ⟨some (ascii "user:secret"), ascii "[::1]", some (ascii "8080")⟩) haccepted (by decide)
    (by decide) (by decide)).mpr (by decide)

/-- Userinfo loses its front twice. -/
theorem front_lost_twice : ¬∀ s u a, create s = .ok (some u) → (Reference.of s).scheme ≠ none →
    (Reference.of s).authority = some a → (∀ d ∈ a.port, digits 10 0 d ≤ 65535) →
      ∃ v, create u.toString = .ok (some v) ∧ SameGetters u v := by
  intro h
  have haccepted : create (ascii "http://u:1:2@h/") = .ok (some ⟨ascii "http", ascii "1:2", ascii "h", 0, ascii "/", [], []⟩) := by
    decide +kernel
  have hagain : create (ascii "http://1:2@h/") = .ok (some ⟨ascii "http", ascii "2", ascii "h", 0, ascii "/", [], []⟩) := by
    decide +kernel
  obtain ⟨v, hv, hsame⟩ := h _ _ ⟨some (ascii "u:1:2"), ascii "h", none⟩ haccepted (by decide) (by decide) (by decide)
  have htext : toString ⟨ascii "http", ascii "1:2", ascii "h", 0, ascii "/", [], []⟩ = ascii "http://1:2@h/" := by
    decide +kernel
  rw [htext, hagain] at hv
  obtain rfl := Option.some.inj (Except.ok.inj hv)
  exact absurd hsame.userinfo (by decide)

end Uri
end MyHttp
