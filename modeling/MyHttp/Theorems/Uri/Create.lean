import MyHttp.Theorems.Uri.Authorities
import MyHttp.Theorems.Uri.Schemes

/-! What `Create` returns for every text, by the parts of the text. -/

namespace MyHttp
namespace Uri

open Lib.CString Lib.Scan UriParser

variable {s a d t w path : Bytes} {p : Nat} {x : UriReader} {stored : Bool}

/-! ### Behind two slashes -/

/-- A URI with an authority and, behind a scheme, a path. -/
def withFront (v : Uri) (stored : Bool) (a : Authority) (path : Bytes) : Uri :=
  if stored then { withAuthority v a with path := path } else withAuthority v a

/-- Two slashes have been read, and an authority, a path and the rest follow. -/
structure Hier (s : Bytes) (p : Nat) (a path t : Bytes) : Prop where
  text : s.drop p = a ++ (path ++ t)
  authority : ∀ c ∈ a, outside (ascii "/?#") c = true
  slash : path = [] ∨ ∃ d, path = 47 :: d
  path : ∀ c ∈ path, outside (ascii "?#") c = true
  tail : Behind (ascii "?#") t

theorem Hier.behind (h : Hier s p a path t) : Behind (ascii "/?#") (path ++ t) := by
  rcases h.slash with rfl | ⟨d, rfl⟩
  · exact h.tail.mono (by decide)
  · exact .inr ⟨47, d ++ t, rfl, by decide⟩

theorem Hier.settles (h : Hier s p a path t) :
    Settles s (p + a.length) stored (path ++ t) (Authority.of a).WellFormed (withAuthority x.uri (.of a))
      ((Authority.of a).port = some []) (outcome s p (hostStart true stored) (some x) (a ++ (path ++ t))) :=
  outcome_authority h.authority h.behind h.text

theorem Hier.back (h : Hier s p a path t) : s.drop (p + a.length) = path ++ t := by
  rw [← List.drop_drop, h.text, List.drop_left]

theorem Hier.bad (h : Hier s p a path t) (hbad : ¬((Authority.of a).WellFormed ∧ encoded pathChar path = true)) :
    outcome s p (hostStart true stored) (some x) (a ++ (path ++ t)) = .ok none := by
  have hset : Settles s _ stored _ _ _ _ (outcome s p (hostStart true stored) (some x) _) := h.settles
  by_cases hgood : (Authority.of a).WellFormed
  · obtain ⟨cs, r, heq, as, y, hcloses, hruns, -, -, -⟩ := hset.read hgood
    rw [heq, outcome_path hcloses h.slash h.path h.tail h.back hruns, if_neg fun hencoded => hbad ⟨hgood, hencoded⟩]
  · exact hset.bad hgood

/-- Behind a scheme an empty port leaves `mark` null, and the path cannot be saved. -/
theorem Hier.thrown (h : Hier s p a path t) (hgood : (Authority.of a).WellFormed) (hencoded : encoded pathChar path = true)
    (hport : (Authority.of a).port = some []) :
    outcome s p (hostStart true true) (some x) (a ++ (path ++ t)) = .error .null := by
  have hset : Settles s _ true _ _ _ _ (outcome s p (hostStart true true) (some x) _) := h.settles
  obtain ⟨cs, r, heq, as, ⟨m, v⟩, hcloses, hruns, -, hempty, -⟩ := hset.read hgood
  have hm : m = none := hempty hport
  subst hm
  rw [heq, outcome_path hcloses h.slash h.path h.tail h.back hruns, if_pos hencoded]
  rfl

theorem Hier.good (h : Hier s p a path t) (hgood : (Authority.of a).WellFormed) (hencoded : encoded pathChar path = true)
    (hport : ¬(stored = true ∧ (Authority.of a).port = some [])) :
    outcome s p (hostStart true stored) (some x) (a ++ (path ++ t)) =
      .ok (if (Tail.of t).WellFormed then some (withTail (withFront x.uri stored (.of a) path) (.of t)) else none) := by
  have hset : Settles s _ stored _ _ _ _ (outcome s p (hostStart true stored) (some x) _) := h.settles
  obtain ⟨cs, r, heq, as, ⟨m, v⟩, hcloses, hruns, hv, -, hmark⟩ := hset.read hgood
  have hv : v = withAuthority x.uri (.of a) := hv
  subst hv
  rw [heq, outcome_path hcloses h.slash h.path h.tail h.back hruns, if_pos hencoded]
  cases stored with
  | false => rfl
  | true =>
    have hm : m = some (p + a.length) := hmark rfl fun hempty => hport ⟨rfl, hempty⟩
    have htext := text_mark (u := withAuthority x.uri (.of a)) h.back
    have hsave : runs s (p + a.length + path.length) (saves true) (some ⟨m, withAuthority x.uri (.of a)⟩) =
        some ⟨none, withFront x.uri true (.of a) path⟩ := by
      rw [hm]
      simp [saves, runs, act, UriReader.act, htext, withFront]
    rw [hsave]
    rfl

theorem hier_of (hd : s.drop p = d) : Hier s p (cut (ascii "/?#") d).1 (cut (ascii "?#") (cut (ascii "/?#") d).2).1
    (cut (ascii "?#") (cut (ascii "/?#") d).2).2 where
  text := by rw [cut_append, cut_append, hd]
  authority _ hc := outside_cut hc
  slash := by
    have hbehind : Behind (ascii "/?#") (cut (ascii "/?#") d).2 := cut_rest
    rcases hbehind with hnil | ⟨c, e, hcons, hc⟩
    · rw [hnil]
      exact .inl rfl
    · rw [hcons]
      rcases List.mem_cons.mp hc with rfl | hc
      · exact .inr ⟨(cut (ascii "?#") e).1, rfl⟩
      · have hnil : cut (ascii "?#") ([] ++ c :: e) = ([], c :: e) := cut_eq (List.forall_mem_nil _) (.inr ⟨c, e, rfl, hc⟩)
        exact .inl (congrArg Prod.fst hnil)
  path _ hc := outside_cut hc
  tail := cut_rest

/-! ### A whole text -/

/-- The port is empty, behind a scheme. -/
def EmptyPort (x : Reference) : Prop := x.scheme ≠ none ∧ ∃ a ∈ x.authority, a.port = some []

def uriOf (x : Reference) : Uri :=
  let u := { new with scheme := x.scheme.getD [] }
  withTail (x.authority.elim u fun a => withFront u x.scheme.isSome a x.path) x.tail

/-- What comes of a text with these parts. -/
structure Creates (x : Reference) (o : Except StringError (Option Uri)) : Prop where
  bad : ¬x.WellFormed → o = .ok none
  thrown : x.WellFormed → EmptyPort x → o = .error .null
  good : x.WellFormed → ¬EmptyPort x → o = .ok (if x.tail.WellFormed then some (uriOf x) else none)

theorem creates_authority {scheme : Option Bytes} (h : Hier s p a path t) (hscheme : ∀ v ∈ scheme, isScheme v = true) :
    Creates ⟨scheme, some (.of a), path, .of t⟩ (outcome s p (hostStart true scheme.isSome)
      (some ⟨none, { new with scheme := scheme.getD [] }⟩) (a ++ (path ++ t))) where
  bad hbad := h.bad fun hgood => hbad ⟨hscheme, fun b hb => Option.some.inj hb ▸ hgood.1, hgood.2, nofun⟩
  thrown hgood hempty := by
    obtain ⟨hsome, b, hb, hport⟩ := hempty
    obtain rfl := Option.some.inj hb
    have htrue : scheme.isSome = true := Option.isSome_iff_ne_none.mpr hsome
    rw [htrue]
    exact h.thrown (hgood.authority _ rfl) hgood.path hport
  good hgood hempty := by
    refine h.good (hgood.authority _ rfl) hgood.path fun hport => hempty ?_
    exact ⟨Option.isSome_iff_ne_none.mp hport.1, _, rfl, hport.2⟩

theorem creates_noAuthority {scheme : Option Bytes} (hscheme : ∀ v ∈ scheme, isScheme v = true)
    (hcolon : scheme = none → path.head? ≠ some 58) {o : Except StringError (Option Uri)}
    (ho : o = if encoded pathChar path then closed (some ⟨none, { new with scheme := scheme.getD [] }⟩) (.of t) else .ok none) :
    Creates ⟨scheme, none, path, .of t⟩ o where
  bad hbad := by
    rw [ho, if_neg]
    exact fun hencoded => hbad ⟨hscheme, (fun b hb => by cases hb), hencoded, fun h _ => hcolon h⟩
  thrown _ hempty := by
    obtain ⟨-, b, hb, -⟩ := hempty
    cases hb
  good hgood _ := by
    rw [ho, if_pos hgood.path]
    rfl

theorem take_two (h : d.take 2 = ascii "//") : ∃ e, d = 47 :: 47 :: e := by
  rcases d with _ | ⟨a, _ | ⟨b, e⟩⟩
  · cases h
  · cases h
  · have h : [a, b] = [47, 47] := h
    obtain ⟨ha, hb⟩ := List.cons.inj h
    exact ⟨e, by rw [ha, (List.cons.inj hb).1]⟩

/-- Where an authority comes. -/
theorem ofHier_slashes {scheme : Option Bytes} : Reference.ofHier scheme (47 :: 47 :: d) =
    ⟨scheme, some (.of (cut (ascii "/?#") d).1), (cut (ascii "?#") (cut (ascii "/?#") d).2).1,
      .of (cut (ascii "?#") (cut (ascii "/?#") d).2).2⟩ := rfl

theorem ofHier_path {scheme : Option Bytes} (hd : d.take 2 ≠ ascii "//") :
    Reference.ofHier scheme d = ⟨scheme, none, (cut (ascii "?#") d).1, .of (cut (ascii "?#") d).2⟩ := by
  unfold Reference.ofHier
  rw [if_neg hd]

theorem creates_slashes {scheme : Option Bytes} (hscheme : ∀ v ∈ scheme, isScheme v = true) (hd : s.drop p = d) :
    Creates (.ofHier scheme (47 :: 47 :: d)) (outcome s p (hostStart true scheme.isSome)
      (some ⟨none, { new with scheme := scheme.getD [] }⟩) d) := by
  have hier := hier_of hd
  have hcreates := creates_authority hier hscheme
  have htext : d = (cut (ascii "/?#") d).1 ++
      ((cut (ascii "?#") (cut (ascii "/?#") d).2).1 ++ (cut (ascii "?#") (cut (ascii "/?#") d).2).2) := by
    rw [cut_append, cut_append]
  rw [ofHier_slashes]
  rw [← htext] at hcreates
  exact hcreates

/-- Behind a scheme. -/
theorem creates_scheme (hscheme : isScheme w = true) (hd : s.drop p = d) :
    Creates (.ofHier (some w) d) (outcome s p 509 (some ⟨none, { new with scheme := w }⟩) d) := by
  have hsome : ∀ v ∈ some w, isScheme v = true := fun v hv => Option.some.inj hv ▸ hscheme
  by_cases htwo : d.take 2 = ascii "//"
  · obtain ⟨e, rfl⟩ := take_two htwo
    have hfirst : edge table 509 47 = some (510, []) := by decide +kernel
    have hsecond : edge table 510 47 = some (511, []) := by decide +kernel
    have he : s.drop (p + 1 + 1) = e := by rw [Nat.add_assoc, ← List.drop_drop, hd]; rfl
    rw [outcome_cons hfirst, outcome_cons hsecond]
    exact creates_slashes hsome he
  · have hcut : s.drop p = (cut (ascii "?#") d).1 ++ (cut (ascii "?#") d).2 := hd.trans cut_append.symm
    have hout : outcome s p (pathCode false 0) (some ⟨none, { new with scheme := w }⟩) _ = _ :=
      outcome_inPath hcut (fun c hc => outside_cut hc) cut_rest
    rw [cut_append] at hout
    rw [ofHier_path htwo, outcome_hier htwo, hout]
    exact creates_noAuthority hsome nofun rfl

/-- Without a scheme. -/
theorem creates_relative (hfree : ∀ c ∈ w, outside (ascii ":/?#") c = true) (hbehind : Behind (ascii ":/?#") d)
    (hs : s = w ++ d) (hscheme : ¬(w ≠ [] ∧ d.head? = some 58)) : Creates (.ofHier none s) (create s) := by
  by_cases htwo : s.take 2 = ascii "//"
  · obtain ⟨e, he⟩ := take_two htwo
    have hd : s.drop 2 = e := by rw [he]; rfl
    rw [create_slashes he, he]
    rw [he] at hd
    exact creates_slashes (fun v hv => by cases hv) hd
  · rw [ofHier_path htwo]
    by_cases hhead : d.head? = some 58
    · have hw : w = [] := Decidable.not_not.mp fun hne => hscheme ⟨hne, hhead⟩
      obtain ⟨e, rfl⟩ := List.head?_eq_some_iff.mp hhead
      subst hw
      rw [create_colon hs, hs]
      exact ⟨fun _ => rfl, fun hgood => absurd rfl (hgood.colon rfl rfl), fun hgood => absurd rfl (hgood.colon rfl rfl)⟩
    · have hd : Behind (ascii "/?#") d := by
        rcases hbehind with rfl | ⟨c, e, rfl, hc⟩
        · exact .inl rfl
        · rcases List.mem_cons.mp hc with rfl | hc
          · exact absurd rfl hhead
          · exact .inr ⟨c, e, rfl, hc⟩
      have hcolon : s.head? ≠ some 58 := by
        subst hs
        cases w with
        | nil => exact hhead
        | cons c w =>
          intro hc
          obtain rfl := Option.some.inj hc
          exact absurd (hfree 58 List.mem_cons_self) (by decide)
      refine creates_noAuthority (fun v hv => by cases hv) (fun _ hc => hcolon ?_) (create_path hfree hs hd htwo)
      have happend : (cut (ascii "?#") s).1 ++ (cut (ascii "?#") s).2 = s := cut_append
      rw [← happend, List.head?_append, hc]
      rfl

/-- What `Create` returns is decided by the parts of the text. -/
theorem creates (s : Bytes) : Creates (.of s) (create s) := by
  obtain ⟨w, hw⟩ : ∃ w, (cut (ascii ":/?#") s).1 = w := ⟨_, rfl⟩
  obtain ⟨d, hd⟩ : ∃ d, (cut (ascii ":/?#") s).2 = d := ⟨_, rfl⟩
  have hs : s = w ++ d := by rw [← hw, ← hd]; exact cut_append.symm
  have hfree : ∀ c ∈ w, outside (ascii ":/?#") c = true := fun c hc => outside_cut (hw ▸ hc)
  have hbehind : Behind (ascii ":/?#") d := hd ▸ cut_rest
  by_cases hscheme : w ≠ [] ∧ d.head? = some 58
  · obtain ⟨hne, hhead⟩ := hscheme
    obtain ⟨e, rfl⟩ := List.head?_eq_some_iff.mp hhead
    have hof : Reference.of s = .ofHier (some w) e := by
      unfold Reference.of
      dsimp only
      rw [hw, hd, if_pos ⟨hne, rfl⟩]
      rfl
    rw [hof, create_scheme hne hfree hs]
    by_cases hgood : isScheme w = true
    · have he : s.drop (w.length + 1) = e := by rw [← List.drop_drop, hs, List.drop_left]; rfl
      rw [if_pos hgood]
      exact creates_scheme hgood he
    · have hbad : ¬(Reference.ofHier (some w) e).WellFormed := fun h => by
        refine hgood (h.scheme w ?_)
        unfold Reference.ofHier
        split <;> rfl
      rw [if_neg hgood]
      exact ⟨fun _ => rfl, fun h => absurd h hbad, fun h => absurd h hbad⟩
  · have hof : Reference.of s = .ofHier none s := by
      unfold Reference.of
      dsimp only
      rw [hw, hd, if_neg hscheme]
    rw [hof]
    exact creates_relative hfree hbehind hs hscheme

end Uri
end MyHttp
