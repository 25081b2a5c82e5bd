import MyHttp.Theorems.Uri.Octets
import MyHttp.Theorems.Uri.Paths

/-! Hosts that are not in brackets, read as a name and as an IPv4 address at once; as long as there has been no `@`, also as
    userinfo. -/

namespace MyHttp
namespace Uri

open Lib.CString Lib.Scan UriParser

variable {s h t w : Bytes} {p cs : Nat} {c : UInt8} {x y : UriReader} {user stored : Bool}

/-! ### Places in a host -/

abbrev HostPlace := Option Nat × Option (Nat × Octet)

def hostNext : HostPlace → UInt8 → Option HostPlace := beside (pctNext nameChar) quadNext

/-- The states of an address that may still be a name, up to the last dot. -/
def dottedCode (base k : Nat) : Octet → Nat
  | .start => base + 2 * k - 1
  | .full => base + 2 * k
  | .one => base + 14 - 4 * k
  | .more => base + 15 - 4 * k
  | .two => base + 16 - 4 * k
  | .twoFive => base + 17 - 4 * k
  | _ => 0

/-- The states of an address that has a control byte: the first of them, the first in a number that has begun, and the
    last two. -/
structure HiddenCodes where
  first : Nat
  begun : Nat
  full : Nat
  one : Nat

def HiddenCodes.code (a : HiddenCodes) (k : Nat) : Octet → Nat
  | .start => a.first + 4 * k - 1
  | .control => a.first + 4 * k
  | .controlDigit => a.first + 4 * k + 1
  | .full => if k = 3 then a.full else a.first + 4 * k + 2
  | .one => if k = 3 then a.one else a.begun + 8 - 4 * k
  | .more => if k = 3 then a.one + 1 else a.begun + 9 - 4 * k
  | .two => if k = 3 then a.one + 2 else a.begun + 10 - 4 * k
  | .twoFive => if k = 3 then a.one + 3 else a.begun + 11 - 4 * k

def hiddenCodes (stored : Bool) : HiddenCodes := if stored then ⟨229, 245, 512, 516⟩ else ⟨9, 23, 460, 463⟩

/-- The states of a name, and the first state of an address. -/
def nameCodes : Bool → Bool → Nat × Nat × Nat × Nat
  | true, true => (520, 253, 254, 543)
  | true, false => (467, 31, 32, 490)
  | false, true => (523, 258, 259, 524)
  | false, false => (470, 36, 37, 471)

def hostCode (user stored : Bool) (q : HostPlace) : Nat :=
  let (a, b, e, base) := nameCodes user stored
  match q with
  | (some j, some (k, o)) => if k = 3 ∧ o ≠ .start then pctCode a b e j else dottedCode base k o
  | (some j, none) => pctCode a b e j
  | (none, some (k, o)) => (hiddenCodes stored).code k o
  | (none, none) => 0

/-- The octets that begin with a digit. -/
def plainOctets : List Octet := [.full, .one, .more, .two, .twoFive]

/-- The octets with their dots: as in a name, and with a control byte. -/
def plainQuads : List (Nat × Octet) :=
  plainOctets.map (Prod.mk 0) ++ [1, 2, 3].flatMap fun k => (Octet.start :: plainOctets).map (Prod.mk k)

def hiddenQuads : List (Nat × Octet) :=
  [(0, .control), (0, .controlDigit), (0, .full)] ++
    [1, 2, 3].flatMap fun k => (.start :: .control :: .controlDigit :: plainOctets).map (Prod.mk k)

def hostPlaces : List HostPlace :=
  [(some 0, none), (some 1, none), (some 2, none)] ++ plainQuads.map (fun q => (some 0, some q)) ++
    hiddenQuads.map fun q => (none, some q)

/-- What ends a host, before a `@` may come and behind it. -/
def hostStop (user : Bool) : Bytes := if user then ascii ":/?#@" else ascii ":/?#"

def hostStart (user stored : Bool) : Nat := if user then if stored then 511 else 459 else if stored then 522 else 469

def colonState (user stored : Bool) : Nat := if user then if stored then 521 else 468 else if stored then 514 else 461

/-- The place is at the end of a name or an address. -/
def hostDone (q : HostPlace) : Bool := q.1 = some 0 || q.2.any quadDone

/-- What is run where a host ends, if it is not empty. -/
def hostCloses (stored : Bool) : List UriAction := if stored then [.saveHost, .mark] else [.saveHost]

/-- The edges where a part of the authority ends with some actions. -/
def closeEdge (stored : Bool) (as : List UriAction) (c : UInt8) : Option (Nat × List UriAction) :=
  if (byte 47).has c then some (pathCode stored 0, as)
  else if (byte 63).has c then some (456, as ++ saves stored)
  else if (byte 35).has c then some (453, as ++ saves stored)
  else none

/-- The edges of a place in a host. A name before a `@` is userinfo; an address with a control byte is not. -/
def hostEdge (user stored : Bool) (q : HostPlace) (c : UInt8) : Option (Nat × List UriAction) :=
  if (byte 47).has c ∨ (byte 63).has c ∨ (byte 35).has c then
    if hostDone q then closeEdge stored (hostCloses stored) c else none
  else if (byte 58).has c then
    if hostDone q then some (colonState (user && q.1 = some 0) stored, [.saveHost]) else none
  else if user = true ∧ (byte 64).has c then
    if q.1 = some 0 then some (hostStart false stored, [.saveUserinfo]) else none
  else (hostNext q c).map fun q' => (hostCode user stored q', [])

theorem hostNext_alike (q : HostPlace) {c d : UInt8} (hcd : Alike classes c d) : hostNext q c = hostNext q d := by
  have hname : ∀ j, pctNext nameChar j c = pctNext nameChar j d := fun j => pctNext_alike (by decide) hcd
  have hquad : ∀ q, quadNext q c = quadNext q d := fun q => quadNext_alike hcd
  simp only [hostNext, beside, hname, hquad]

theorem closeEdge_alike {as : List UriAction} {c d : UInt8} (hcd : Alike classes c d) :
    closeEdge stored as c = closeEdge stored as d := by
  simp only [closeEdge, hcd (byte 47) (by decide), hcd (byte 63) (by decide), hcd (byte 35) (by decide)]

theorem hostEdge_alike (q : HostPlace) {c d : UInt8} (hcd : Alike classes c d) :
    hostEdge user stored q c = hostEdge user stored q d := by
  simp only [hostEdge, closeEdge_alike hcd, hostNext_alike q hcd, hcd (byte 47) (by decide), hcd (byte 63) (by decide),
    hcd (byte 35) (by decide), hcd (byte 58) (by decide), hcd (byte 64) (by decide)]

theorem host_rows : ∀ user stored, ∀ q ∈ hostPlaces,
    rowAgrees table (hostCode user stored q) kinds (hostEdge user stored q) = true ∧
      if hostDone q then
        eofActions (hostCode user stored q) = hostCloses stored ++ saves stored ∧ 451 ≤ hostCode user stored q
      else hostCode user stored q < 451 := by
  decide +kernel

theorem edge_host {q : HostPlace} (hq : q ∈ hostPlaces) : edge table (hostCode user stored q) c = hostEdge user stored q c :=
  edge_of_row (fun _ _ h => hostEdge_alike q h) (host_rows user stored q hq).1

/-- Before the first byte of a host the place is none of these. -/
theorem host_kinds : ∀ q ∈ (some 0, some (0, .start)) :: hostPlaces, ∀ d ∈ kinds, ∀ q' ∈ hostNext q d, q' ∈ hostPlaces := by
  decide +kernel

theorem host_closed : ∀ q ∈ (some 0, some (0, .start)) :: hostPlaces, ∀ c, ∀ q' ∈ hostNext q c, q' ∈ hostPlaces := by
  intro q hq c q' hq'
  obtain ⟨d, hd, hcd⟩ := exists_alike c
  rw [hostNext_alike q hcd] at hq'
  exact host_kinds q hq d hd q' hq'

variable {q : HostPlace}

theorem hostEdge_inside (hc : outside (hostStop user) c = true) :
    hostEdge user stored q c = (hostNext q c).map fun q' => (hostCode user stored q', []) := by
  have h47 : (byte 47).has c = false := has_of_outside (b := 47) (by cases user <;> decide) hc
  have h63 : (byte 63).has c = false := has_of_outside (b := 63) (by cases user <;> decide) hc
  have h35 : (byte 35).has c = false := has_of_outside (b := 35) (by cases user <;> decide) hc
  have h58 : (byte 58).has c = false := has_of_outside (b := 58) (by cases user <;> decide) hc
  have h64 : ¬(user = true ∧ (byte 64).has c = true) := by
    rintro ⟨rfl, hat⟩
    have hnot : (byte 64).has c = false := has_of_outside (b := 64) (by decide) hc
    rw [hnot] at hat
    cases hat
  rw [hostEdge, h47, h63, h35, h58, if_neg (by simp), if_neg (by simp), if_neg h64]

theorem host_region : Region table (hostCode user stored) hostNext hostPlaces (outside (hostStop user)) where
  edge _ hq _ hc := (edge_host hq).trans (hostEdge_inside hc)
  closed q hq c q' _ hq' := host_closed q (List.mem_cons_of_mem _ hq) c q' hq'

/-! ### Where a host ends -/

theorem host_closes (hq : q ∈ hostPlaces) (hdone : hostDone q = true) :
    Closes stored (hostCode user stored q) (hostCloses stored) := by
  have hend := (host_rows user stored q hq).2
  rw [if_pos hdone] at hend
  have hedge : ∀ c ∈ ascii "/?#", edge table (hostCode user stored q) c = closeEdge stored (hostCloses stored) c := by
    intro c hc
    have hbyte : ∀ c ∈ ascii "/?#", (byte 47).has c = true ∨ (byte 63).has c = true ∨ (byte 35).has c = true := by decide
    rw [edge_host hq, hostEdge, if_pos (hbyte c hc), if_pos hdone]
  exact ⟨hedge 47 (by decide), hedge 63 (by decide), hedge 35 (by decide), hend.1, hend.2⟩

theorem host_colon (hq : q ∈ hostPlaces) (hdone : hostDone q = true) : edge table (hostCode user stored q) 58 =
    some (colonState (user && q.1 = some 0) stored, [.saveHost]) := by
  rw [edge_host hq, hostEdge, if_neg (by decide), if_pos (by decide), if_pos hdone]

/-- A name before a `@` is userinfo; an address with a control byte is not. -/
theorem host_at (hq : q ∈ hostPlaces) : edge table (hostCode true stored q) 64 =
    if q.1 = some 0 then some (hostStart false stored, [.saveUserinfo]) else none := by
  rw [edge_host hq, hostEdge, if_neg (by decide), if_neg (by decide), if_pos (by decide)]

theorem outcome_undone (hq : q ∈ hostPlaces) (hundone : hostDone q = false) (ht : Behind (hostStop user) t) :
    outcome s p (hostCode user stored q) (some x) t = .ok none := by
  have hend := (host_rows user stored q hq).2
  rw [hundone, if_neg Bool.false_ne_true] at hend
  have hname : q.1 ≠ some 0 := by
    rw [hostDone, Bool.or_eq_false_iff, decide_eq_false_iff_not] at hundone
    exact hundone.1
  rcases ht with rfl | ⟨c, d, rfl, hc⟩
  · exact outcome_unfinished hend
  · have hbyte : ∀ user, ∀ c ∈ hostStop user, ((byte 47).has c = true ∨ (byte 63).has c = true ∨ (byte 35).has c = true) ∨
        (byte 58).has c = true ∨ user = true ∧ (byte 64).has c = true := by decide
    refine outcome_none ?_
    rw [edge_host hq, hostEdge]
    rcases hbyte user c hc with hc | hc | hc
    · simp [hc, hundone]
    · simp [hc, hundone]
    · simp [hc, hundone, hname]

/-! ### Before the first byte -/

def startEdge (user stored : Bool) (c : UInt8) : Option (Nat × List UriAction) :=
  if (byte 47).has c ∨ (byte 63).has c ∨ (byte 35).has c then closeEdge stored [.mark, .saveHost] c
  else if (byte 58).has c then some (colonState user stored, [.mark, .saveHost])
  else if user = true ∧ (byte 64).has c then some (hostStart false stored, [.mark, .saveUserinfo])
  else if (byte 91).has c then some (if stored then 260 else 38, [.mark])
  else (hostNext (some 0, some (0, .start)) c).map fun q' => (hostCode user stored q', [.mark])

theorem edge_start : edge table (hostStart user stored) c = startEdge user stored c := by
  refine edge_of_row (fun c d hcd => ?_) ?_
  · simp only [startEdge, closeEdge_alike hcd, hostNext_alike _ hcd, hcd (byte 47) (by decide), hcd (byte 63) (by decide),
      hcd (byte 35) (by decide), hcd (byte 58) (by decide), hcd (byte 64) (by decide), hcd (byte 91) (by decide)]
  · revert user stored
    decide +kernel

theorem start_closes : Closes stored (hostStart user stored) [.mark, .saveHost] := by
  have hend : ∀ user stored, eofActions (hostStart user stored) = [.mark, .saveHost] ++ saves stored ∧
      451 ≤ hostStart user stored := by decide
  obtain ⟨heof, hfinal⟩ := hend user stored
  exact ⟨edge_start, edge_start, edge_start, heof, hfinal⟩

theorem start_places {q' : HostPlace} (hq' : hostNext (some 0, some (0, .start)) c = some q') : q' ∈ hostPlaces :=
  host_closed _ List.mem_cons_self c q' hq'

theorem host_place (hrun : (c :: h).foldlM hostNext (some 0, some (0, .start)) = some q) : q ∈ hostPlaces := by
  rw [List.foldlM_cons] at hrun
  obtain ⟨q₁, hq₁, hrun⟩ := Option.bind_eq_some_iff.mp hrun
  exact foldlM_closed (fun q hq => host_closed q (List.mem_cons_of_mem _ hq)) (start_places hq₁) hrun

theorem host_entrance : Entrance (hostStart user stored) (hostCode user stored) hostNext hostPlaces
    (some 0, some (0, .start)) (outside (91 :: hostStop user)) where
  edge c hc := by
    have h47 : (byte 47).has c = false := has_of_outside (b := 47) (by cases user <;> decide) hc
    have h63 : (byte 63).has c = false := has_of_outside (b := 63) (by cases user <;> decide) hc
    have h35 : (byte 35).has c = false := has_of_outside (b := 35) (by cases user <;> decide) hc
    have h58 : (byte 58).has c = false := has_of_outside (b := 58) (by cases user <;> decide) hc
    have h91 : (byte 91).has c = false := has_of_outside (b := 91) List.mem_cons_self hc
    have h64 : ¬(user = true ∧ (byte 64).has c = true) := by
      rintro ⟨rfl, hat⟩
      have hnot : (byte 64).has c = false := has_of_outside (b := 64) (by decide) hc
      rw [hnot] at hat
      cases hat
    rw [edge_start, startEdge, h47, h63, h35, h58, h91, if_neg (by simp), if_neg (by simp), if_neg h64, if_neg (by simp)]
  places c q' _ hq' := start_places hq'

/-! ### Host texts -/

/-- What has been read of a host is a name, an address, or both. -/
theorem host_run : h.foldlM hostNext (some 0, some (0, .start)) =
    either (h.foldlM (pctNext nameChar) 0) (h.foldlM quadNext (0, .start)) := by
  rw [hostNext, foldlM_beside (.inl (Option.some_ne_none _))]
  rfl

theorem encoded_of_run (hrun : h.foldlM hostNext (some 0, some (0, .start)) = some q) :
    q.1 = some 0 ↔ encoded nameChar h = true := by
  rw [host_run] at hrun
  obtain ⟨-, rfl⟩ := either_eq_some.mp hrun
  rw [encoded_iff_run]

theorem not_encoded_of_run (hrun : h.foldlM hostNext (some 0, some (0, .start)) = none) : encoded nameChar h = false := by
  rw [host_run] at hrun
  rw [Bool.eq_false_iff, Ne, encoded_iff_run, (either_eq_none.mp hrun).1]
  exact nofun

theorem isHost_iff_run (hhead : h.head? ≠ some 91) :
    isHost h ↔ ∃ q, h.foldlM hostNext (some 0, some (0, .start)) = some q ∧ hostDone q = true := by
  have hliteral : ¬ipLiteral h := by
    rintro ⟨w, rfl, -⟩
    exact hhead rfl
  rw [isHost, or_iff_right hliteral, ipv4Address_iff_run, encoded_iff_run, host_run]
  constructor
  · rintro (⟨q, hq, hdone⟩ | hname)
    · refine ⟨_, either_eq_some.mpr ⟨.inr ?_, rfl⟩, ?_⟩
      · rw [hq]
        exact Option.some_ne_none q
      · rw [hostDone, hq]
        simp [hdone]
    · refine ⟨_, either_eq_some.mpr ⟨.inl ?_, rfl⟩, ?_⟩
      · rw [hname]
        exact Option.some_ne_none _
      · rw [hostDone, hname]
        simp
  · rintro ⟨q, hq, hdone⟩
    obtain ⟨-, rfl⟩ := either_eq_some.mp hq
    rcases Bool.or_eq_true_iff.mp hdone with hname | hquad
    · exact .inr (of_decide_eq_true hname)
    · exact .inl (Option.any_eq_true _ _ |>.mp hquad)

/-- The first byte of a text that is not in brackets. -/
theorem outside_first (hc : outside (hostStop user) c = true) (hhead : (c :: h).head? ≠ some 91) :
    outside (91 :: hostStop user) c = true := by
  refine decide_eq_true fun hmem => ?_
  rcases List.mem_cons.mp hmem with rfl | hmem
  · exact hhead rfl
  · exact of_decide_eq_true hc hmem

/-- A host that has been read: it is set where it ends, and `mark` is where it began. -/
structure HostRead (s : Bytes) (p : Nat) (user stored : Bool) (u : Uri) (h : Bytes) (cs : Nat) (r : Option UriReader) :
    Prop where
  closes : ∃ as, Closes stored cs as ∧
    runs s (p + h.length) as r = some ⟨some (if stored then p + h.length else p), { u with host := h }⟩
  colon : ∃ as, edge table cs 58 = some (colonState user stored, as) ∧
    runs s (p + h.length) as r = some ⟨some p, { u with host := h }⟩

theorem saveHost_runs {u : Uri} (hs : s.drop p = h ++ t) :
    runs s (p + h.length) [.saveHost] (some ⟨some p, u⟩) = some ⟨some p, { u with host := h }⟩ := by
  have htext := text_mark (u := u) hs
  simp [runs, act, UriReader.act, htext]

theorem hostCloses_runs {u : Uri} (hs : s.drop p = h ++ t) :
    runs s (p + h.length) (hostCloses stored) (some ⟨some p, u⟩) =
      some ⟨some (if stored then p + h.length else p), { u with host := h }⟩ := by
  have hset := saveHost_runs (u := u) hs
  cases stored with
  | false => exact hset
  | true => exact runs_append.trans (congrArg (runs s (p + h.length) [.mark]) hset)

theorem outcome_host (hh : ∀ c ∈ h, outside (hostStop user) c = true) (hhead : h.head? ≠ some 91)
    (hs : s.drop p = h ++ t) (hhost : isHost h) :
    ∃ cs r, outcome s p (hostStart user stored) (some x) (h ++ t) = outcome s (p + h.length) cs r t ∧
      HostRead s p (user && encoded nameChar h) stored x.uri h cs r := by
  cases h with
  | nil =>
    have hset := saveHost_runs (u := x.uri) hs
    refine ⟨hostStart user stored, some x, rfl, ⟨[.mark, .saveHost], start_closes, ?_⟩, ⟨[.mark, .saveHost], ?_, hset⟩⟩
    · cases stored <;> exact hset
    · rw [edge_start]
      cases user <;> rfl
  | cons c h =>
    obtain ⟨q, hrun, hdone⟩ := (isHost_iff_run hhead).mp hhost
    have hfirst := outside_first (hh c List.mem_cons_self) hhead
    have hplace := host_place hrun
    have hset := saveHost_runs (u := x.uri) hs
    refine ⟨hostCode user stored q, some { x with mark := some p }, ?_,
      ⟨_, host_closes hplace hdone, hostCloses_runs hs⟩, ⟨_, ?_, hset⟩⟩
    · rw [outcome_enter host_region host_entrance hfirst fun d hd => hh d (List.mem_cons_of_mem _ hd), hrun]
      rfl
    · have hname : decide (q.1 = some 0) = encoded nameChar (c :: h) := by
        rw [Bool.eq_iff_iff, decide_eq_true_eq]
        exact encoded_of_run hrun
      rw [host_colon hplace hdone, hname]

theorem outcome_badHost (hh : ∀ c ∈ h, outside (hostStop user) c = true) (hhead : h.head? ≠ some 91) (hhost : ¬isHost h)
    (ht : Behind (hostStop user) t) : outcome s p (hostStart user stored) (some x) (h ++ t) = .ok none := by
  cases h with
  | nil => exact absurd (.inr (.inr rfl)) hhost
  | cons c h =>
    rw [isHost_iff_run hhead] at hhost
    rw [outcome_enter host_region host_entrance (outside_first (hh c List.mem_cons_self) hhead)
      fun d hd => hh d (List.mem_cons_of_mem _ hd)]
    rcases hrun : (c :: h).foldlM hostNext (some 0, some (0, .start)) with _ | q
    · rfl
    · rw [Option.elim_some]
      exact outcome_undone (host_place hrun) (Bool.eq_false_iff.mpr fun hdone => hhost ⟨q, hrun, hdone⟩) ht

/-- A name with a `@` behind it was userinfo. -/
theorem outcome_name (hh : ∀ c ∈ h, outside (hostStop true) c = true) (hhead : h.head? ≠ some 91)
    (hs : s.drop p = h ++ 64 :: t) : outcome s p (hostStart true stored) (some x) (h ++ 64 :: t) =
      if encoded nameChar h then
        outcome s (p + h.length + 1) (hostStart false stored) (some ⟨none, { x.uri with userinfo := h }⟩) t
      else .ok none := by
  have htext := text_mark (u := x.uri) hs
  have hset : runs s (p + h.length) [.saveUserinfo] (some ⟨some p, x.uri⟩) = some ⟨none, { x.uri with userinfo := h }⟩ := by
    simp [runs, act, UriReader.act, htext]
  cases h with
  | nil =>
    have hedge : edge table (hostStart true stored) 64 = some (hostStart false stored, [.mark, .saveUserinfo]) := by
      rw [edge_start]
      rfl
    have hnil : encoded nameChar [] = true := rfl
    rw [if_pos hnil, List.nil_append, outcome_cons hedge]
    exact congrArg (fun r => outcome s (p + 1) (hostStart false stored) r t) hset
  | cons c h =>
    rw [outcome_enter host_region host_entrance (outside_first (hh c List.mem_cons_self) hhead)
      fun d hd => hh d (List.mem_cons_of_mem _ hd)]
    rcases hrun : (c :: h).foldlM hostNext (some 0, some (0, .start)) with _ | q
    · rw [not_encoded_of_run hrun, if_neg Bool.false_ne_true]
      rfl
    · have hat : edge table (hostCode true stored q) 64 = _ := host_at (host_place hrun)
      rw [Option.elim_some]
      by_cases hq : q.1 = some 0
      · rw [if_pos hq] at hat
        rw [if_pos ((encoded_of_run hrun).mp hq), outcome_cons hat, hset]
      · rw [if_neg hq] at hat
        rw [if_neg fun h => hq ((encoded_of_run hrun).mpr h)]
        exact outcome_none hat

end Uri
end MyHttp
