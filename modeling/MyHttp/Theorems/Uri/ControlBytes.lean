import MyHttp.Theorems.Uri.RoundTrip

/-! Control bytes in a text: the only one that is let through is the byte 2, in an octet of an address. -/

namespace MyHttp
namespace Uri

open Lib.CString Lib.Scan UriParser

universe u

variable {s w d t : Bytes} {b c : UInt8} {k : CharClass} {x : Reference} {a : Authority}

/-- Up to the space, and DEL. -/
def Control (c : UInt8) : Prop := c ≤ 32 ∨ c = 127

instance (c : UInt8) : Decidable (Control c) := inferInstanceAs (Decidable (_ ∨ _))

/-- The byte 2 and two digits. -/
def ControlOctet (h : Bytes) : Prop := ∃ l b c r, h = l ++ 2 :: b :: c :: r ∧ upTo4.has b = true ∧ digit.has c = true

/-! ### Control bytes in a host -/

/-- Control bytes are told apart from the byte 2 only. -/
theorem control_alike : ∀ c, Control c → c = 2 ∨ Alike classes c 0 := by
  refine forall_byte ?_
  decide +kernel

/-- A machine that reads a control byte only as the first of an octet. -/
theorem octet_of_run {σ : Type u} {f : σ → UInt8 → Option σ} {done : σ → Bool} {I J : σ → Prop} {q : σ}
    (hcontrol : ∀ q c q', Control c → f q c = some q' → c = 2 ∧ I q')
    (hfirst : ∀ q b q', I q → f q b = some q' → upTo4.has b = true ∧ J q')
    (hsecond : ∀ q b q', J q → f q b = some q' → digit.has b = true)
    (hdone : ∀ q, I q ∨ J q → done q = false) (h : (w.foldlM f q).any done = true) (hc : c ∈ w) (hcc : Control c) :
    ControlOctet w := by
  obtain ⟨l, r, rfl⟩ := List.append_of_mem hc
  obtain ⟨q', hrun, hq'⟩ := (Option.any_eq_true _ _).mp h
  rw [List.foldlM_append] at hrun
  obtain ⟨q₁, -, hlast⟩ := Option.bind_eq_some_iff.mp hrun
  rw [List.foldlM_cons] at hlast
  obtain ⟨q₂, hq₂, htwo⟩ := Option.bind_eq_some_iff.mp hlast
  obtain ⟨rfl, hI⟩ := hcontrol q₁ c q₂ hcc hq₂
  rcases r with _ | ⟨b, r⟩
  · obtain rfl : q₂ = q' := Option.some.inj htwo
    rw [hdone _ (.inl hI)] at hq'
    cases hq'
  rw [List.foldlM_cons] at htwo
  obtain ⟨q₃, hq₃, hone⟩ := Option.bind_eq_some_iff.mp htwo
  obtain ⟨hb, hJ⟩ := hfirst q₂ b q₃ hI hq₃
  rcases r with _ | ⟨c, r⟩
  · obtain rfl : q₃ = q' := Option.some.inj hone
    rw [hdone _ (.inr hJ)] at hq'
    cases hq'
  rw [List.foldlM_cons] at hone
  obtain ⟨q₄, hq₄, -⟩ := Option.bind_eq_some_iff.mp hone
  exact ⟨l, b, c, r, rfl, hb, hsecond q₃ c q₄ hJ hq₄⟩

theorem quadNext_two {o q : Nat × Octet} (h : quadNext o 2 = some q) : q.2 = .control := by
  obtain ⟨k, o⟩ := o
  have hnext : (o.next 2).map (k, ·) = some q := h
  obtain ⟨o', ho', rfl⟩ := Option.map_eq_some_iff.mp hnext
  cases o <;> cases ho'
  rfl

theorem quadNext_control {o q : Nat × Octet} (ho : o.2 = .control) (h : quadNext o b = some q) :
    upTo4.has b = true ∧ q.2 = .controlDigit := by
  obtain ⟨k, o⟩ := o
  obtain rfl : o = .control := ho
  unfold quadNext at h
  split_ifs at h with hdot hdone
  · cases hdone.1
  · obtain ⟨o', ho', rfl⟩ := Option.map_eq_some_iff.mp h
    have ho' : (if upTo4.has b = true then some Octet.controlDigit else none) = some o' := ho'
    split_ifs at ho' with hb
    exact ⟨hb, (Option.some.inj ho').symm⟩

theorem quadNext_controlDigit {o q : Nat × Octet} (ho : o.2 = .controlDigit) (h : quadNext o b = some q) :
    digit.has b = true := by
  obtain ⟨k, o⟩ := o
  obtain rfl : o = .controlDigit := ho
  unfold quadNext at h
  split_ifs at h with hdot hdone
  · cases hdone.1
  · obtain ⟨o', ho', rfl⟩ := Option.map_eq_some_iff.mp h
    have ho' : (if digit.has b = true then some Octet.full else none) = some o' := ho'
    split_ifs at ho' with hb
    exact hb

theorem quadNext_byte {o q : Nat × Octet} (hc : Control c) (h : quadNext o c = some q) : c = 2 ∧ q.2 = .control := by
  rcases control_alike c hc with rfl | hzero
  · exact ⟨rfl, quadNext_two h⟩
  · rw [quadNext_alike hzero, quadNext_free 0 (by decide)] at h
    cases h

theorem quadDone_control {o : Nat × Octet} (h : o.2 = .control ∨ o.2 = .controlDigit) : quadDone o = false := by
  obtain ⟨k, o⟩ := o
  rcases h with rfl | rfl <;> simp [quadDone, Octet.complete]

theorem ipv4_control (h : ipv4Address w = true) (hc : c ∈ w) (hcc : Control c) : ControlOctet w := by
  rw [ipv4Address, octets_eq_reads (k := 0) rfl] at h
  exact octet_of_run (I := fun o => o.2 = .control) (J := fun o => o.2 = .controlDigit) (fun _ _ _ => quadNext_byte)
    (fun _ _ _ => quadNext_control) (fun _ _ _ => quadNext_controlDigit) (fun _ => quadDone_control) h hc hcc

/-- An address in brackets is read on as one of four octets. -/
theorem literalNext_byte {p q : LiteralPlace} (hc : Control c) (h : p.next c = some q) :
    c = 2 ∧ ∃ k, q = .quad (k, .control) := by
  rcases control_alike c hc with rfl | hzero
  · refine ⟨rfl, ?_⟩
    have hgroup : ∀ x g, LiteralPlace.slotNext x g 2 = some q → ∃ k, q = .quad (k, .control) := by
      intro x g hslot
      have hslot : (groupNext g 2).map (LiteralPlace.ofGroup x) = some q := hslot
      obtain ⟨g', hg', rfl⟩ := Option.map_eq_some_iff.mp hslot
      obtain ⟨j, o⟩ := g
      have hh16 : j.bind (h16Next · 2) = none := by cases j <;> rfl
      have hg' : either (j.bind (h16Next · 2)) (o.bind (quadNext · 2)) = some g' := hg'
      rw [hh16] at hg'
      obtain ⟨-, rfl⟩ := either_eq_some.mp hg'
      rcases o with _ | o
      · cases hg'
      · rcases ho : quadNext o 2 with _ | ⟨k, o'⟩
        · simp [ho, either] at hg'
        · have hcontrol : o' = .control := quadNext_two ho
          exact ⟨k, by simp [ho, LiteralPlace.ofGroup, hcontrol]⟩
    rcases p with _ | _ | ⟨x, g⟩ | o | _ | _ | j
    · have hslot : LiteralPlace.slotNext LiteralPlace.first LiteralPlace.first.start 2 = some q := h
      exact hgroup _ _ hslot
    · cases h
    · exact hgroup x g h
    · obtain ⟨⟨k, o'⟩, ho', rfl⟩ := Option.map_eq_some_iff.mp (show (quadNext o 2).map LiteralPlace.quad = some q from h)
      have hcontrol : o' = .control := quadNext_two ho'
      exact ⟨k, by rw [hcontrol]⟩
    · cases h
    · cases h
    · cases h
  · rw [literalNext_alike p hzero, next_free 0 (by decide)] at h
    cases h

theorem literal_control (h : LiteralPlace.begun.reads w = true) (hc : c ∈ w) (hcc : Control c) : ControlOctet w := by
  refine octet_of_run (I := fun q => ∃ k, q = .quad (k, .control)) (J := fun q => ∃ k, q = .quad (k, .controlDigit))
    (fun _ _ _ => literalNext_byte) ?_ ?_ ?_ h hc hcc
  · rintro _ b q ⟨k, rfl⟩ hq
    obtain ⟨⟨k', o⟩, ho, rfl⟩ := Option.map_eq_some_iff.mp (show (quadNext _ b).map LiteralPlace.quad = some q from hq)
    obtain ⟨hb, hdigit⟩ := quadNext_control rfl ho
    have hdigit : o = .controlDigit := hdigit
    exact ⟨hb, k', by rw [hdigit]⟩
  · rintro _ b q ⟨k, rfl⟩ hq
    obtain ⟨o, ho, rfl⟩ := Option.map_eq_some_iff.mp (show (quadNext _ b).map LiteralPlace.quad = some q from hq)
    exact quadNext_controlDigit rfl ho
  · rintro _ (⟨k, rfl⟩ | ⟨k, rfl⟩)
    · exact quadDone_control (.inl rfl)
    · exact quadDone_control (.inr rfl)

/-! ### Control bytes in a text -/

theorem class_control : ∀ k ∈ [alpha, schemeChar, digit, xdigit, nameChar, userChar, pathChar, queryChar],
    ∀ c, k.has c = true → ¬Control c := by
  intro k hk
  refine forall_byte ?_
  revert k
  decide +kernel

theorem encoded_control (hk : k ∈ [nameChar, userChar, pathChar, queryChar]) (h : encoded k w = true) (hc : c ∈ w) :
    ¬Control c := by
  have hclass : k ∈ [alpha, schemeChar, digit, xdigit, nameChar, userChar, pathChar, queryChar] := by
    simp only [List.mem_cons] at hk ⊢
    tauto
  rcases encoded_bytes h c hc with hhas | rfl | hhas
  · exact class_control k hclass c hhas
  · decide
  · exact class_control xdigit (by decide) c hhas

/-- A host has a control byte only in an octet. -/
theorem host_control (h : isHost w) (hc : c ∈ w) (hcc : Control c) : ControlOctet w := by
  rcases h with hliteral | haddress | hname
  · obtain ⟨v, rfl, hv⟩ := hliteral
    have hcv : c ∈ v := by
      rcases List.mem_cons.mp hc with rfl | hc
      · exact absurd hcc (by decide)
      · rcases List.mem_append.mp hc with hc | hc
        · exact hc
        · rw [List.mem_singleton.mp hc] at hcc
          exact absurd hcc (by decide)
    obtain ⟨l, b, d, r, rfl, hb, hd⟩ := literal_control (literal_iff_reads.mp hv) hcv hcc
    exact ⟨91 :: l, b, d, r ++ [93], by simp, hb, hd⟩
  · exact ipv4_control haddress hc hcc
  · exact absurd hcc (encoded_control (by decide) hname hc)

theorem scheme_control (h : isScheme w = true) (hc : c ∈ w) : ¬Control c := by
  cases w with
  | nil => cases h
  | cons b w =>
    obtain ⟨hb, hw⟩ := (Bool.and_eq_true _ _).mp h
    rcases List.mem_cons.mp hc with rfl | hc
    · exact class_control alpha (by decide) c hb
    · exact class_control schemeChar (by decide) c (List.all_eq_true.mp hw c hc)

theorem portPart_rest {rest : Bytes} (h : Behind (ascii ":") rest) : portPart (portOf rest) = rest := by
  rcases h with rfl | ⟨b, d, rfl, hb⟩
  · rfl
  · have hb : b = 58 := List.mem_singleton.mp hb
    subst hb
    rfl

theorem ofHost_part {ui : Option Bytes} {d : Bytes} :
    (Authority.ofHost ui d).host ++ portPart (Authority.ofHost ui d).port = d := by
  obtain ⟨front, hfront⟩ : ∃ front, (if d.head? = some 91 then (cut (ascii "]") d).1 else []) = front := ⟨_, rfl⟩
  have hprefix : front <+: d := by
    rw [← hfront]
    split_ifs
    · exact ⟨_, cut_append⟩
    · exact List.nil_prefix
  have hhost : Authority.ofHost ui d = ⟨ui, front ++ (cut (ascii ":") (d.drop front.length)).1,
      portOf (cut (ascii ":") (d.drop front.length)).2⟩ := by
    rw [← hfront]
    rfl
  rw [hhost]
  obtain ⟨back, rfl⟩ := hprefix
  rw [List.drop_left, portPart_rest cut_rest, List.append_assoc, cut_append]

/-- An authority is its parts and the delimiters between them. -/
theorem authorityText_of {d : Bytes} : authorityText (.of d) = d := by
  rw [Authority.of]
  split_ifs with hat
  · have hrest : Behind (ascii "@") (cut (ascii "@") d).2 := cut_rest
    have happend : (cut (ascii "@") d).1 ++ (cut (ascii "@") d).2 = d := cut_append
    rcases hrest with hnil | ⟨b, e, hcons, hb⟩
    · rw [hnil, List.append_nil] at happend
      rw [← happend] at hat
      have hout : outside (ascii "@") 64 = true := outside_cut hat
      exact absurd hout (by decide)
    · have hb : b = 64 := List.mem_singleton.mp hb
      subst hb
      rw [hcons] at happend ⊢
      have htext : authorityText (.ofHost (some (cut (ascii "@") d).1) e) = (cut (ascii "@") d).1 ++ [64] ++ e :=
        congrArg (_ ++ ·) ofHost_part
      rw [List.tail_cons, htext, List.append_assoc]
      exact happend
  · exact ofHost_part

theorem tailText_of {d : Bytes} (h : Behind (ascii "?#") d) : tailText (.of d) = d := by
  rcases h with rfl | ⟨b, e, rfl, hb⟩
  · rfl
  · have hmarks : ∀ b ∈ ascii "?#", b = 63 ∨ b = 35 := by decide
    rcases hmarks b hb with rfl | rfl
    · have hrest : Behind (ascii "#") (cut (ascii "#") e).2 := cut_rest
      have happend : (cut (ascii "#") e).1 ++ (cut (ascii "#") e).2 = e := cut_append
      have htext : tailText (.of (63 :: e)) =
          63 :: ((cut (ascii "#") e).1 ++ (fragmentOf (cut (ascii "#") e).2).elim [] (35 :: ·)) := rfl
      have hfragment : (fragmentOf (cut (ascii "#") e).2).elim [] (35 :: ·) = (cut (ascii "#") e).2 := by
        rcases hrest with hnil | ⟨b, f, hcons, hb⟩
        · rw [hnil]
          rfl
        · have hb : b = 35 := List.mem_singleton.mp hb
          subst hb
          rw [hcons]
          rfl
      rw [htext, hfragment, happend]
    · rfl

/-- The parts of a reference and their delimiters. -/
def referenceText (x : Reference) : Bytes :=
  x.scheme.elim [] (· ++ [58]) ++ (x.authority.elim [] (47 :: 47 :: authorityText ·) ++ (x.path ++ tailText x.tail))

theorem ofHier_text {scheme : Option Bytes} {d : Bytes} :
    referenceText (.ofHier scheme d) = scheme.elim [] (· ++ [58]) ++ d := by
  by_cases htwo : d.take 2 = ascii "//"
  · obtain ⟨e, rfl⟩ := take_two htwo
    rw [ofHier_slashes]
    have htext : authorityText (.of (cut (ascii "/?#") e).1) ++ ((cut (ascii "?#") (cut (ascii "/?#") e).2).1 ++
        tailText (.of (cut (ascii "?#") (cut (ascii "/?#") e).2).2)) = e := by
      rw [authorityText_of, tailText_of cut_rest, cut_append, cut_append]
    exact congrArg (fun e => scheme.elim [] (· ++ [58]) ++ 47 :: 47 :: e) htext
  · rw [ofHier_path htwo]
    have htext : (cut (ascii "?#") d).1 ++ tailText (.of (cut (ascii "?#") d).2) = d := by
      rw [tailText_of cut_rest, cut_append]
    exact congrArg (scheme.elim [] (· ++ [58]) ++ ·) htext

theorem referenceText_of : referenceText (.of s) = s := by
  unfold Reference.of
  dsimp only
  split_ifs with hscheme
  · obtain ⟨-, hhead⟩ := hscheme
    obtain ⟨e, he⟩ := List.head?_eq_some_iff.mp hhead
    have happend : (cut (ascii ":/?#") s).1 ++ (cut (ascii ":/?#") s).2 = s := cut_append
    rw [ofHier_text, he]
    rw [he] at happend
    exact (List.append_assoc _ _ _).trans happend
  · exact ofHier_text

/-- A control byte in a text of the grammar stands in an address. -/
theorem control_host (hgood : x.WellFormed) (htail : x.tail.WellFormed) (hc : c ∈ referenceText x) (hcc : Control c) :
    ∃ a ∈ x.authority, ControlOctet a.host := by
  have hdelimiter : ∀ c ∈ ascii ":/@?#", ¬Control c := by decide
  rcases List.mem_append.mp hc with hc | hc
  · rcases hx : x.scheme with _ | w
    · rw [hx] at hc
      cases hc
    · rw [hx] at hc
      rcases List.mem_append.mp hc with hc | hc
      · exact absurd hcc (scheme_control (hgood.scheme w hx) hc)
      · rw [List.mem_singleton.mp hc] at hcc
        exact absurd hcc (hdelimiter 58 (by decide))
  rcases List.mem_append.mp hc with hc | hc
  · rcases hx : x.authority with _ | a
    · rw [hx] at hc
      cases hc
    · rw [hx] at hc
      have ha := hgood.authority a hx
      refine ⟨a, rfl, ?_⟩
      rcases List.mem_cons.mp hc with rfl | hc
      · exact absurd hcc (hdelimiter 47 (by decide))
      rcases List.mem_cons.mp hc with rfl | hc
      · exact absurd hcc (hdelimiter 47 (by decide))
      rcases List.mem_append.mp hc with hc | hc
      · rcases hu : a.userinfo with _ | u
        · rw [hu] at hc
          cases hc
        · rw [hu] at hc
          rcases List.mem_append.mp hc with hc | hc
          · exact absurd hcc (encoded_control (by decide) (ha.userinfo u hu) hc)
          · rw [List.mem_singleton.mp hc] at hcc
            exact absurd hcc (hdelimiter 64 (by decide))
      rcases List.mem_append.mp hc with hc | hc
      · exact host_control ha.host hc hcc
      · rcases hp : a.port with _ | d
        · rw [hp] at hc
          cases hc
        · rw [hp] at hc
          rcases List.mem_cons.mp hc with rfl | hc
          · exact absurd hcc (hdelimiter 58 (by decide))
          · exact absurd hcc (class_control digit (by decide) c (ha.port d hp c hc))
  rcases List.mem_append.mp hc with hc | hc
  · exact absurd hcc (encoded_control (by decide) hgood.path hc)
  rcases List.mem_append.mp hc with hc | hc
  · rcases hq : x.tail.query with _ | q
    · rw [hq] at hc
      cases hc
    · rw [hq] at hc
      rcases List.mem_cons.mp hc with rfl | hc
      · exact absurd hcc (hdelimiter 63 (by decide))
      · exact absurd hcc (encoded_control (by decide) (htail.query q hq) hc)
  · rcases hf : x.tail.fragment with _ | f
    · rw [hf] at hc
      cases hc
    · rw [hf] at hc
      rcases List.mem_cons.mp hc with rfl | hc
      · exact absurd hcc (hdelimiter 35 (by decide))
      · exact absurd hcc (encoded_control (by decide) (htail.fragment f hf) hc)

/-- A text with a control byte is refused but for an octet that begins with the byte 2, and for an empty port, which throws. -/
theorem null_iff_noControl (h : ∃ c ∈ s, Control c) : create s = .ok none ↔
    ¬((Reference.of s).WellFormed ∧ (EmptyPort (.of s) ∨
      (Reference.of s).tail.WellFormed ∧ ∃ a ∈ (Reference.of s).authority, ControlOctet a.host)) := by
  obtain ⟨c, hc, hcc⟩ := h
  have hcreates := creates s
  by_cases hgood : (Reference.of s).WellFormed
  · by_cases hempty : EmptyPort (.of s)
    · rw [hcreates.thrown hgood hempty]
      exact ⟨nofun, fun h => absurd ⟨hgood, .inl hempty⟩ h⟩
    · rw [hcreates.good hgood hempty]
      by_cases htail : (Reference.of s).tail.WellFormed
      · rw [if_pos htail]
        have hoctet := control_host hgood htail (referenceText_of.symm ▸ hc) hcc
        exact ⟨nofun, fun h => absurd ⟨hgood, .inr ⟨htail, hoctet⟩⟩ h⟩
      · rw [if_neg htail]
        exact ⟨fun _ hsome => hsome.2.elim hempty fun hoctet => htail hoctet.1, fun _ => rfl⟩
  · exact ⟨fun _ h => hgood h.1, fun _ => hcreates.bad hgood⟩

/-- A line break in a path. -/
theorem null_iff_lineBreak : create (ascii "http://h/a\x0d\x0aX: b") = .ok none := by
  have hspace : ∃ c ∈ ascii "http://h/a\x0d\x0aX: b", Control c := by decide +kernel
  refine (null_iff_noControl hspace).mpr fun hsome => ?_
  have hpath : encoded pathChar (Reference.of (ascii "http://h/a\x0d\x0aX: b")).path = false := by decide +kernel
  rw [hsome.1.path] at hpath
  cases hpath

/-- The last octet is the byte 2 and `01`. -/
theorem two_accepted : ¬∀ s, (∃ c ∈ s, Control c) → create s = .ok none := by
  intro h
  have hnone := h (ascii "http://1.1.1.\x0201/") (by decide +kernel)
  have hsome : create (ascii "http://1.1.1.\x0201/") =
      .ok (some ⟨ascii "http", [], ascii "1.1.1.\x0201", 0, ascii "/", [], []⟩) := by
    decide +kernel
  rw [hsome] at hnone
  cases hnone

end Uri
end MyHttp
