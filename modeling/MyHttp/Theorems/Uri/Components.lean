import MyHttp.Theorems.Uri.Create

/-! Which components of a text the getters return. -/

namespace MyHttp
namespace Uri

open Lib.CString Lib.Machine Lib.Scan UriParser

variable {s d : Bytes} {u v : Uri} {x : Reference} {a : Authority}

/-! ### What an accepted text gives -/

/-- A text is accepted if its parts are what the grammar says and no exception is thrown. -/
theorem accepted_iff : create s = .ok (some u) ↔
    (Reference.of s).WellFormed ∧ ¬EmptyPort (.of s) ∧ (Reference.of s).tail.WellFormed ∧ u = uriOf (.of s) := by
  have h := creates s
  by_cases hgood : (Reference.of s).WellFormed
  · by_cases hempty : EmptyPort (.of s)
    · rw [h.thrown hgood hempty]
      exact iff_of_false nofun fun h => h.2.1 hempty
    · rw [h.good hgood hempty]
      by_cases htail : (Reference.of s).tail.WellFormed
      · rw [if_pos htail]
        constructor
        · intro heq
          exact ⟨hgood, hempty, htail, (Option.some.inj (Except.ok.inj heq)).symm⟩
        · rintro ⟨-, -, -, rfl⟩
          rfl
      · rw [if_neg htail]
        exact iff_of_false nofun fun h => htail h.2.2.1
  · rw [h.bad hgood]
    exact iff_of_false nofun fun h => hgood h.1

/-- The number that is kept of a port. -/
def storedPort (d : Bytes) : Int := if d = [] then 0 else int32 (min (2 ^ 63 - 1) (digits 10 0 d : Int))

theorem withPort_eq : withPort u d = { u with port := if d = [] then u.port else storedPort d } := by
  unfold withPort storedPort
  split_ifs <;> rfl

/-- The parts that are there, or empty texts. -/
def userinfoOf (x : Reference) : Bytes := (x.authority.bind (·.userinfo)).getD []

def hostOf (x : Reference) : Bytes := (x.authority.map (·.host)).getD []

def digitsOf (x : Reference) : Bytes := (x.authority.bind (·.port)).getD []

theorem uriOf_eq : uriOf x = ⟨x.scheme.getD [], kept (userinfoOf x), hostOf x, storedPort (digitsOf x),
    if x.scheme ≠ none ∧ x.authority ≠ none then x.path else [], x.tail.query.getD [], x.tail.fragment.getD []⟩ := by
  obtain ⟨scheme, authority, path, tail⟩ := x
  rcases authority with _ | ⟨userinfo, host, port⟩
  · have hkept : kept [] = [] := rfl
    rw [if_neg fun h => h.2 rfl]
    simp [uriOf, withTail, userinfoOf, hostOf, digitsOf, new, hkept, storedPort]
  · have huser : (userinfo.map kept).getD [] = kept (userinfo.getD []) := by cases userinfo <;> rfl
    have hport : port.getD [] = [] → 0 = storedPort (port.getD []) := fun h => by rw [h]; rfl
    cases scheme <;>
      simpa [uriOf, withTail, withFront, withAuthority, withHost, withPort_eq, userinfoOf, hostOf, digitsOf, new, huser]
        using hport

/-! ### What the getters return -/

def defaultPort (scheme : Bytes) : Int :=
  if scheme = ascii "http" ∨ scheme = ascii "ws" then 80
  else if scheme = ascii "https" ∨ scheme = ascii "wss" then 443
  else 0

theorem getPort_eq : u.getPort = if u.port = 0 then defaultPort u.scheme else u.port := by
  unfold getPort defaultPort
  by_cases h : u.port = 0
  · simp [h]
  · simp [h]

/-- The getters return the parts; of a port the number, or the default of the scheme. -/
structure Returns (u : Uri) (x : Reference) : Prop where
  scheme : u.scheme = x.scheme.getD []
  userinfo : u.userinfo = userinfoOf x
  host : u.host = hostOf x
  port : u.getPort = if digitsOf x = [] then defaultPort (x.scheme.getD []) else (digits 10 0 (digitsOf x) : Int)
  path : u.getPath = if x.path = [] then ascii "/" else x.path
  query : u.query = x.tail.query.getD []
  fragment : u.fragment = x.tail.fragment.getD []

/-- A digit follows the first colon. -/
def ColonDigit (w : Bytes) : Prop := (cut (ascii ":") w).2.tail.head?.any digit.has = true

instance (w : Bytes) : Decidable (ColonDigit w) := inferInstanceAs (Decidable (_ = true))

theorem kept_eq_iff {w : Bytes} : kept w = w ↔ ¬ColonDigit w := by
  have happend : (cut (ascii ":") w).1 ++ (cut (ascii ":") w).2 = w := cut_append
  rw [kept]
  split_ifs with h
  · refine iff_of_false (fun heq => ?_) fun hnot => hnot h
    rcases hrest : (cut (ascii ":") w).2 with _ | ⟨c, d⟩
    · rw [hrest] at h
      cases h
    · rw [hrest] at heq happend
      have hlen := congrArg List.length (heq.trans happend.symm)
      simp at hlen
      omega
  · exact iff_of_true rfl h

theorem storedPort_cases (d : Bytes) (n : Int) (hn : n = 0 ∨ n = 80 ∨ n = 443) :
    (if storedPort d = 0 then n else storedPort d) = (if d = [] then n else (digits 10 0 d : Int)) ↔
      d = [] ∨ digits 10 0 d < 2 ^ 31 ∧ (digits 10 0 d ≠ 0 ∨ n = 0) := by
  by_cases hd : d = []
  · subst hd
    exact iff_of_true rfl (.inl rfl)
  · have hstored : storedPort d = int32 (min (2 ^ 63 - 1) (digits 10 0 d : Int)) := if_neg hd
    rw [if_neg hd, or_iff_right hd]
    by_cases hlt : digits 10 0 d < 2 ^ 31
    · have hvalue : storedPort d = digits 10 0 d := by
        have hmin : min (2 ^ 63 - 1) (digits 10 0 d : Int) = digits 10 0 d := by omega
        rw [hstored, hmin, int32_eq (Int.natCast_nonneg _) (by omega)]
      rw [hvalue, and_iff_right hlt]
      by_cases hzero : digits 10 0 d = 0
      · simp [hzero]
      · have hne : (digits 10 0 d : Int) ≠ 0 := by omega
        rw [if_neg hne]
        exact iff_of_true rfl (.inl hzero)
    · refine iff_of_false ?_ fun h => hlt h.1
      have hbound := ((int32_iff _ _).mp hstored.symm).2.1
      split_ifs
      · omega
      · omega

/-- The getters return the components, if no digit follows the first colon of the userinfo, a path comes with a scheme and
    an authority, and the port is an `int` and not a zero that stands for another default. -/
theorem returns_iff (h : create s = .ok (some u)) : Returns u (.of s) ↔
    ¬ColonDigit (userinfoOf (.of s)) ∧
      ((Reference.of s).scheme ≠ none ∧ (Reference.of s).authority ≠ none ∨ (Reference.of s).path = [] ∨
        (Reference.of s).path = ascii "/") ∧
      (digitsOf (.of s) = [] ∨ digits 10 0 (digitsOf (.of s)) < 2 ^ 31 ∧
        (digits 10 0 (digitsOf (.of s)) ≠ 0 ∨ defaultPort ((Reference.of s).scheme.getD []) = 0)) := by
  obtain ⟨-, -, -, hu⟩ := accepted_iff.mp h
  rw [uriOf_eq] at hu
  generalize Reference.of s = x at hu
  have hdefault : defaultPort (x.scheme.getD []) = 0 ∨ defaultPort (x.scheme.getD []) = 80 ∨
      defaultPort (x.scheme.getD []) = 443 := by
    unfold defaultPort
    split_ifs <;> simp
  have hport := storedPort_cases (digitsOf x) _ hdefault
  have hpath : u.getPath = (if x.path = [] then ascii "/" else x.path) ↔
      x.scheme ≠ none ∧ x.authority ≠ none ∨ x.path = [] ∨ x.path = ascii "/" := by
    rw [hu, getPath]
    by_cases hboth : x.scheme ≠ none ∧ x.authority ≠ none
    · rw [if_pos hboth]
      exact iff_of_true rfl (.inl hboth)
    · rw [if_neg hboth, if_pos rfl, or_iff_right hboth]
      by_cases hnil : x.path = []
      · rw [if_pos hnil]
        exact iff_of_true rfl (.inl hnil)
      · rw [if_neg hnil, or_iff_right hnil, eq_comm]
  have hget : u.getPort = if storedPort (digitsOf x) = 0 then defaultPort (x.scheme.getD []) else storedPort (digitsOf x) := by
    rw [getPort_eq, hu]
  rw [← kept_eq_iff, ← hpath, ← hport, ← hget]
  constructor
  · intro hr
    exact ⟨(congrArg Uri.userinfo hu).symm.trans hr.userinfo, hr.path, hr.port⟩
  · rintro ⟨huser, hpath, hport⟩
    exact ⟨by rw [hu], by rw [hu]; exact huser, by rw [hu], hport, hpath, by rw [hu], by rw [hu]⟩

theorem returns_iff_test : Returns ⟨ascii "http", [], ascii "www.sylar.top", 0, ascii "/test/uri", ascii "id=100&name=sylar&frg", []⟩
    (.of (ascii "http://www.sylar.top/test/uri?id=100&name=sylar&frg")) := by
  have haccepted : create (ascii "http://www.sylar.top/test/uri?id=100&name=sylar&frg") =
      .ok (some ⟨ascii "http", [], ascii "www.sylar.top", 0, ascii "/test/uri", ascii "id=100&name=sylar&frg", []⟩) := by
    decide +kernel
  exact (returns_iff haccepted).mpr ⟨by decide, .inl ⟨by decide, by decide⟩, .inl (by decide)⟩

/-- Of a password that begins with a digit the name before it is lost. -/
theorem password_kept : ¬∀ s u, create s = .ok (some u) → Returns u (.of s) := by
  intro h
  have haccepted : create (ascii "http://user:80@host/") =
      .ok (some ⟨ascii "http", ascii "80", ascii "host", 0, ascii "/", [], []⟩) := by
    decide +kernel
  have huser := (h _ _ haccepted).userinfo
  exact absurd huser (by decide)

end Uri
end MyHttp
