import MyHttp.Http.Message
import Mathlib.Data.List.Infix

/-! The method strings. Both recognisers take the first string of the table that the text begins with; as no string of
    the table begins with another one, that is the only one. -/

namespace MyHttp
namespace Http

open Lib.CString

variable {s t : Bytes} {m : HttpMethod} {x y : HttpMethod × String}

/-- `s` is the string of `m` in `HTTP_METHOD_MAP`. -/
def IsMethod (m : HttpMethod) (s : Bytes) : Prop := ∃ x ∈ methodMap, x.1 = m ∧ ascii x.2 = s

/-- What the recognisers and the printer are to do with a string. -/
structure MethodCodec (s : Bytes) : Prop where
  string : ∀ m, stringToHttpMethod s = some m ↔ IsMethod m s
  chars : ∀ rest m, charsToHttpMethod (s ++ 32 :: rest) = some m ↔ IsMethod m s
  listed : ∀ m, IsMethod m s → httpMethodToString (methodNumber (stringToHttpMethod s)) = some s
  unlisted : (∀ m, ¬IsMethod m s) →
    httpMethodToString (methodNumber (stringToHttpMethod s)) = some (ascii "<unknown>")

theorem methodMap_nul : ∀ x ∈ methodMap, 0 ∉ ascii x.2 ∧ x.2.length = (ascii x.2).length := by decide +kernel

/-- No method string begins with another one. -/
theorem methodMap_apart : ∀ x ∈ methodMap, ∀ y ∈ methodMap, ascii x.2 <+: ascii y.2 → x = y := by decide +kernel

theorem methodMap_number : ∀ x ∈ methodMap, httpMethodToString x.1.number = some (ascii x.2) := by decide +kernel

/-- A text begins with one method string at most. -/
theorem method_unique (hx : x ∈ methodMap) (hy : y ∈ methodMap) (hxs : ascii x.2 <+: s) (hys : ascii y.2 <+: s) :
    x = y := by
  rcases List.prefix_or_prefix_of_prefix hxs hys with h | h
  · exact methodMap_apart x hx y hy h
  · exact (methodMap_apart y hy x hx h).symm

theorem strncmpEq_method (hx : x ∈ methodMap) :
    strncmpEq (ascii x.2) s x.2.length = true ↔ ascii x.2 <+: s := by
  obtain ⟨hnul, hlen⟩ := methodMap_nul x hx
  rw [hlen]
  exact strncmpEq_iff_prefix hnul

/-- The recognisers find the method whose string the text begins with. -/
theorem charsToHttpMethod_iff : charsToHttpMethod s = some m ↔ ∃ x ∈ methodMap, x.1 = m ∧ ascii x.2 <+: s := by
  unfold charsToHttpMethod
  generalize hfound : methodMap.find? (fun x => strncmpEq (ascii x.2) s x.2.length) = found
  have hprefix : ∀ x ∈ found, x ∈ methodMap ∧ ascii x.2 <+: s := by
    rintro x rfl
    have hx := List.mem_of_find?_eq_some hfound
    have hfits : strncmpEq (ascii x.2) s x.2.length = true :=
      List.find?_some (p := fun x : HttpMethod × String => strncmpEq (ascii x.2) s x.2.length) hfound
    exact ⟨hx, (strncmpEq_method hx).mp hfits⟩
  constructor
  · intro h
    obtain ⟨x, rfl, rfl⟩ := Option.map_eq_some_iff.mp h
    obtain ⟨hx, hxs⟩ := hprefix x rfl
    exact ⟨x, hx, rfl, hxs⟩
  · rintro ⟨x, hx, rfl, hxs⟩
    cases found with
    | none => exact absurd ((strncmpEq_method hx).mpr hxs) (List.find?_eq_none.mp hfound x hx)
    | some y =>
      obtain ⟨hy, hys⟩ := hprefix y rfl
      rw [Option.map_some, method_unique hy hx hys hxs]

theorem stringToHttpMethod_iff : stringToHttpMethod s = some m ↔ ∃ x ∈ methodMap, x.1 = m ∧ ascii x.2 <+: s :=
  charsToHttpMethod_iff

/-- A word that stands before a byte it does not have stands there alone. -/
theorem prefix_stop {w : Bytes} {c : UInt8} (hc : c ∉ w) : w <+: s ++ c :: t ↔ w <+: s := by
  refine ⟨fun h => ?_, fun h => h.trans (List.prefix_append ..)⟩
  rcases List.prefix_or_prefix_of_prefix h (List.prefix_append s (c :: t)) with hws | ⟨u, rfl⟩
  · exact hws
  · rw [List.prefix_append_right_inj] at h
    cases u with
    | nil => exact ⟨[], by simp⟩
    | cons d u =>
      obtain ⟨rfl, -⟩ := List.cons_prefix_cons.mp h
      exact absurd (List.mem_append_right s List.mem_cons_self) hc

/-- What stands behind the blank after a token does not count. -/
theorem charsToHttpMethod_token {rest : Bytes} : charsToHttpMethod (s ++ 32 :: rest) = some m ↔
    ∃ x ∈ methodMap, x.1 = m ∧ ascii x.2 <+: s := by
  rw [charsToHttpMethod_iff]
  refine exists_congr fun x => and_congr_right fun hx => and_congr_right fun _ => ?_
  exact prefix_stop (methodMap_words x hx).1

/-- No method string is a proper beginning of `s`. -/
def NoShorter (s : Bytes) : Prop := ∀ x ∈ methodMap, ascii x.2 <+: s → ascii x.2 = s

/-- A beginning counts as the whole for every method exactly when there is no shorter beginning. -/
theorem exact_iff : (∀ m, (∃ x ∈ methodMap, x.1 = m ∧ ascii x.2 <+: s) ↔ IsMethod m s) ↔ NoShorter s := by
  constructor
  · intro h x hx hprefix
    obtain ⟨y, hy, hyx, hys⟩ := (h x.1).mp ⟨x, hx, rfl, hprefix⟩
    obtain rfl := method_unique hx hy hprefix (hys ▸ List.prefix_rfl)
    exact hys
  · intro h m
    refine exists_congr fun x => and_congr_right fun hx => and_congr_right fun _ => ?_
    exact ⟨h x hx, fun hxs => hxs ▸ List.prefix_rfl⟩

/-- The number of a string that is not recognised is the one behind the table. -/
theorem methodString_unrecognised (h : ∀ x ∈ methodMap, ¬ascii x.2 <+: s) :
    httpMethodToString (methodNumber (stringToHttpMethod s)) = none := by
  rcases hm : stringToHttpMethod s with _ | m
  · rfl
  · obtain ⟨x, hx, -, hxs⟩ := stringToHttpMethod_iff.mp hm
    exact absurd hxs (h x hx)

theorem methodString_recognised (hx : x ∈ methodMap) (hxs : ascii x.2 <+: s) :
    httpMethodToString (methodNumber (stringToHttpMethod s)) = some (ascii x.2) := by
  rw [stringToHttpMethod_iff.mpr ⟨x, hx, rfl, hxs⟩]
  exact methodMap_number x hx

/-- Printing what was recognised gives the string back, or says that it is unknown, only for the method strings. -/
theorem printed_iff : ((∀ m, IsMethod m s → httpMethodToString (methodNumber (stringToHttpMethod s)) = some s) ∧
    ((∀ m, ¬IsMethod m s) →
      httpMethodToString (methodNumber (stringToHttpMethod s)) = some (ascii "<unknown>"))) ↔
    ∃ m, IsMethod m s := by
  constructor
  · rintro ⟨-, hunlisted⟩
    by_contra hno
    have hunknown := hunlisted fun m hm => hno ⟨m, hm⟩
    by_cases hprefix : ∃ x ∈ methodMap, ascii x.2 <+: s
    · obtain ⟨x, hx, hxs⟩ := hprefix
      rw [methodString_recognised hx hxs] at hunknown
      have hwords : ∀ x ∈ methodMap, ascii x.2 ≠ ascii "<unknown>" := by decide +kernel
      exact hwords x hx (Option.some.inj hunknown)
    · rw [methodString_unrecognised fun x hx hxs => hprefix ⟨x, hx, hxs⟩] at hunknown
      cases hunknown
  · rintro ⟨m, x, hx, rfl, rfl⟩
    exact ⟨fun _ _ => methodString_recognised hx List.prefix_rfl, fun h => absurd ⟨x, hx, rfl, rfl⟩ (h x.1)⟩

theorem noShorter_of_method (h : IsMethod m s) : NoShorter s := by
  obtain ⟨y, hy, rfl, rfl⟩ := h
  intro x hx hprefix
  rw [methodMap_apart x hx y hy hprefix]

/-- The recognisers are exact for the strings that do not go on behind a method string, and all of the codec is right
    for the method strings only. -/
theorem method_codec (s : Bytes) :
    ((∀ m, stringToHttpMethod s = some m ↔ IsMethod m s) ↔ NoShorter s) ∧
    ((∀ rest m, charsToHttpMethod (s ++ 32 :: rest) = some m ↔ IsMethod m s) ↔ NoShorter s) ∧
    (MethodCodec s ↔ ∃ m, IsMethod m s) := by
  have hstring : (∀ m, stringToHttpMethod s = some m ↔ IsMethod m s) ↔ NoShorter s := by
    simp only [stringToHttpMethod_iff]
    exact exact_iff
  have hchars : (∀ rest m, charsToHttpMethod (s ++ 32 :: rest) = some m ↔ IsMethod m s) ↔ NoShorter s := by
    simp only [charsToHttpMethod_token]
    exact ⟨fun h => exact_iff.mp (h []), fun h _ => exact_iff.mpr h⟩
  refine ⟨hstring, hchars, fun h => printed_iff.mp ⟨h.listed, h.unlisted⟩, fun h => ?_⟩
  obtain ⟨m, hm⟩ := h
  obtain ⟨hlisted, hunlisted⟩ := printed_iff.mpr ⟨m, hm⟩
  exact ⟨hstring.mpr (noShorter_of_method hm), hchars.mpr (noShorter_of_method hm), hlisted, hunlisted⟩

/-- `GETX` is taken for `GET`. -/
theorem method_extended : ¬∀ s, MethodCodec s := by
  intro h
  obtain ⟨x, hx, -, hget⟩ := ((h (ascii "GETX")).string .get).mp (by decide +kernel)
  have hnone : ∀ x ∈ methodMap, ascii x.2 ≠ ascii "GETX" := by decide +kernel
  exact hnone x hx hget

end Http
end MyHttp
