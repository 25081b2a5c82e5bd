import MyHttp.Theorems.Uri.Hosts

/-! What stands behind the first colon of an authority: a port and, as long as a `@` may come, the rest of the userinfo. -/

namespace MyHttp
namespace Uri

open Lib.CString Lib.Machine Lib.Scan UriParser

variable {s d t : Bytes} {p cs m : Nat} {c : UInt8} {x y : UriReader} {r : Option UriReader} {user stored : Bool}

/-! ### Places behind a colon -/

abbrev PortPlace := Option Unit × Option Nat

def portNext : PortPlace → UInt8 → Option PortPlace := beside (allNext digit) (pctNext userChar)

def portStart (user : Bool) : PortPlace := (some (), if user then some 0 else none)

def portCode (stored : Bool) : PortPlace → Nat
  | (some _, none) => if stored then 515 else 462
  | (some _, some _) => if stored then 542 else 489
  | (none, j) => if stored then pctCode 255 256 257 (j.getD 0) else pctCode 33 34 35 (j.getD 0)

def portPlaces (user : Bool) : List PortPlace :=
  if user then [(some (), some 0), (none, some 0), (none, some 1), (none, some 2)] else [(some (), none)]

def portStop (user : Bool) : Bytes := if user then ascii "/?#@" else ascii "/?#"

/-- What is run where a port ends, if it is not empty. -/
def portCloses (stored : Bool) : List UriAction := if stored then [.savePort, .mark] else [.savePort]

def portEdge (stored : Bool) (q : PortPlace) (c : UInt8) : Option (Nat × List UriAction) :=
  if (byte 47).has c ∨ (byte 63).has c ∨ (byte 35).has c then
    if q.1 = some () then closeEdge stored (portCloses stored) c else none
  else if (byte 64).has c then if q.2 = some 0 then some (hostStart false stored, [.saveUserinfo]) else none
  else (portNext q c).map fun q' => (portCode stored q', [])

/-- The first byte; `mark` is set at a digit. -/
def colonEdge (user stored : Bool) (c : UInt8) : Option (Nat × List UriAction) :=
  if (byte 47).has c ∨ (byte 63).has c ∨ (byte 35).has c then closeEdge stored [.mark, .savePort] c
  else if user = true ∧ (byte 64).has c then some (hostStart false stored, [.saveUserinfo])
  else (portNext (portStart user) c).map fun q => (portCode stored q, if digit.has c then [.mark] else [])

theorem portNext_alike (q : PortPlace) {c d : UInt8} (hcd : Alike classes c d) : portNext q c = portNext q d := by
  have hdigit : ∀ u, allNext digit u c = allNext digit u d := fun u => allNext_alike (by decide) hcd
  have huser : ∀ j, pctNext userChar j c = pctNext userChar j d := fun j => pctNext_alike (by decide) hcd
  simp only [portNext, beside, hdigit, huser]

theorem port_rows : ∀ user stored, (∀ q ∈ portPlaces user, rowAgrees table (portCode stored q) kinds (portEdge stored q) = true ∧
      if q.1 = some () then eofActions (portCode stored q) = portCloses stored ++ saves stored ∧ 451 ≤ portCode stored q
      else portCode stored q < 451) ∧
    rowAgrees table (colonState user stored) kinds (colonEdge user stored) = true := by
  decide +kernel

theorem edge_port {q : PortPlace} (hq : q ∈ portPlaces user) : edge table (portCode stored q) c = portEdge stored q c := by
  refine edge_of_row (fun c d hcd => ?_) ((port_rows user stored).1 q hq).1
  simp only [portEdge, closeEdge_alike hcd, portNext_alike q hcd, hcd (byte 47) (by decide), hcd (byte 63) (by decide),
    hcd (byte 35) (by decide), hcd (byte 64) (by decide)]

theorem edge_colon : edge table (colonState user stored) c = colonEdge user stored c := by
  refine edge_of_row (fun c d hcd => ?_) (port_rows user stored).2
  simp only [colonEdge, closeEdge_alike hcd, portNext_alike _ hcd, hcd (byte 47) (by decide), hcd (byte 63) (by decide),
    hcd (byte 35) (by decide), hcd (byte 64) (by decide), hcd digit (by decide)]

variable {q : PortPlace}

theorem port_kinds : ∀ user, ∀ q ∈ portPlaces user, ∀ d ∈ kinds, ∀ q' ∈ portNext q d, q' ∈ portPlaces user := by
  decide +kernel

theorem port_closed : ∀ q ∈ portPlaces user, ∀ c, ∀ q' ∈ portNext q c, q' ∈ portPlaces user := by
  intro q hq c q' hq'
  obtain ⟨d, hd, hcd⟩ := exists_alike c
  rw [portNext_alike q hcd] at hq'
  exact port_kinds user q hq d hd q' hq'

theorem portStart_place : portStart user ∈ portPlaces user := by
  cases user <;> decide

/-- Inside of the port, or of the userinfo. -/
theorem port_inside (hq : q ∈ portPlaces user) (hc : outside (portStop user) c = true) :
    edge table (portCode stored q) c = (portNext q c).map fun q' => (portCode stored q', []) := by
  have h47 : (byte 47).has c = false := has_of_outside (b := 47) (by cases user <;> decide) hc
  have h63 : (byte 63).has c = false := has_of_outside (b := 63) (by cases user <;> decide) hc
  have h35 : (byte 35).has c = false := has_of_outside (b := 35) (by cases user <;> decide) hc
  rw [edge_port hq, portEdge, h47, h63, h35, if_neg (by simp)]
  cases user with
  | true =>
    have h64 : (byte 64).has c = false := has_of_outside (b := 64) (by decide) hc
    rw [h64, if_neg Bool.false_ne_true]
  | false =>
    obtain rfl := List.mem_singleton.mp hq
    by_cases hat : (byte 64).has c = true
    · have hc : c = 64 := of_decide_eq_true (byte_has (b := 64) ▸ hat)
      subst hc
      rfl
    · rw [if_neg hat]

theorem port_region : Region table (portCode stored) portNext (portPlaces user) (outside (portStop user)) where
  edge _ hq _ hc := port_inside hq hc
  closed q hq c q' _ hq' := port_closed q hq c q' hq'

theorem colon_inside (hc : outside (portStop user) c = true) : edge table (colonState user stored) c =
    (portNext (portStart user) c).map fun q => (portCode stored q, if digit.has c then [.mark] else []) := by
  have h47 : (byte 47).has c = false := has_of_outside (b := 47) (by cases user <;> decide) hc
  have h63 : (byte 63).has c = false := has_of_outside (b := 63) (by cases user <;> decide) hc
  have h35 : (byte 35).has c = false := has_of_outside (b := 35) (by cases user <;> decide) hc
  have h64 : ¬(user = true ∧ (byte 64).has c = true) := by
    rintro ⟨rfl, hat⟩
    have hnot : (byte 64).has c = false := has_of_outside (b := 64) (by decide) hc
    rw [hnot] at hat
    cases hat
  rw [edge_colon, colonEdge, h47, h63, h35, if_neg (by simp), if_neg h64]

/-- What is behind the colon is read as a port and as userinfo. -/
theorem outcome_colon (hd : ∀ e ∈ c :: d, outside (portStop user) e = true) :
    outcome s p (colonState user stored) (some x) (c :: d ++ t) =
      ((c :: d).foldlM portNext (portStart user)).elim (.ok none) fun q =>
        outcome s (p + (c :: d).length) (portCode stored q) (some (if digit.has c then { x with mark := some p } else x)) t := by
  have hedge : edge table (colonState user stored) c = _ := colon_inside (hd c List.mem_cons_self)
  have hmark : runs s p (if digit.has c then [.mark] else []) (some x) =
      some (if digit.has c then { x with mark := some p } else x) := by
    split <;> rfl
  rw [List.foldlM_cons, List.cons_append]
  rcases hq : portNext (portStart user) c with _ | q
  · rw [hq] at hedge
    exact outcome_none hedge
  · rw [hq] at hedge
    rw [outcome_cons hedge, hmark, List.length_cons, ← Nat.add_assoc, Nat.add_right_comm]
    exact outcome_region port_region (port_closed _ portStart_place c q hq) fun e he => hd e (List.mem_cons_of_mem _ he)

theorem port_run : d.foldlM portNext (portStart user) =
    either (if d.all digit.has then some () else none) (if user then d.foldlM (pctNext userChar) 0 else none) := by
  rw [portNext, portStart, foldlM_beside (.inl (Option.some_ne_none _)), Option.bind_some, all_run]
  cases user <;> rfl

/-! ### Where a port ends -/

theorem port_closes (hq : q ∈ portPlaces user) (hdone : q.1 = some ()) :
    Closes stored (portCode stored q) (portCloses stored) := by
  have hend := ((port_rows user stored).1 q hq).2
  rw [if_pos hdone] at hend
  have hedge : ∀ c ∈ ascii "/?#", edge table (portCode stored q) c = closeEdge stored (portCloses stored) c := by
    intro c hc
    have hbyte : ∀ c ∈ ascii "/?#", (byte 47).has c = true ∨ (byte 63).has c = true ∨ (byte 35).has c = true := by decide
    rw [edge_port hq, portEdge, if_pos (hbyte c hc), if_pos hdone]
  exact ⟨hedge 47 (by decide), hedge 63 (by decide), hedge 35 (by decide), hend.1, hend.2⟩

theorem colon_closes : Closes stored (colonState user stored) [.mark, .savePort] := by
  have hend : ∀ user stored, eofActions (colonState user stored) = [.mark, .savePort] ++ saves stored ∧
      451 ≤ colonState user stored := by decide
  obtain ⟨heof, hfinal⟩ := hend user stored
  exact ⟨edge_colon, edge_colon, edge_colon, heof, hfinal⟩

/-- A port has digits only; other userinfo does not end an authority. -/
theorem outcome_undigested (hq : q ∈ portPlaces user) (hdone : q.1 ≠ some ()) (ht : Behind (ascii "/?#") t) :
    outcome s p (portCode stored q) (some x) t = .ok none := by
  have hend := ((port_rows user stored).1 q hq).2
  rw [if_neg hdone] at hend
  rcases ht with rfl | ⟨c, d, rfl, hc⟩
  · exact outcome_unfinished hend
  · have hbyte : ∀ c ∈ ascii "/?#", (byte 47).has c = true ∨ (byte 63).has c = true ∨ (byte 35).has c = true := by decide
    refine outcome_none ?_
    rw [edge_port hq, portEdge, if_pos (hbyte c hc), if_neg hdone]

/-! ### Ports and userinfo -/

/-- A URI with a port, if it has digits. -/
def withPort (u : Uri) (d : Bytes) : Uri :=
  if d = [] then u else { u with port := int32 (min (2 ^ 63 - 1) (digits 10 0 d : Int)) }

/-- An authority has been read: it is in the URI where it ends, and `mark` is there, unless the port is empty. -/
def AuthorityRead (s : Bytes) (p : Nat) (stored : Bool) (u : Uri) (empty : Prop) (cs : Nat) (r : Option UriReader) : Prop :=
  ∃ as y, Closes stored cs as ∧ runs s p as r = some y ∧ y.uri = u ∧ (empty → y.mark = none) ∧
    (stored = true → ¬empty → y.mark = some p)

theorem has_digit (h : digit.has c = true) : 48 ≤ c.toNat ∧ c.toNat ≤ 57 := by
  simpa [UriParser.digit, CharClass.has] using h

theorem savePort_runs {u : Uri} (hs : s.drop p = d ++ t) (hd : ∀ c ∈ d, digit.has c = true) (ht : Behind (ascii "/?#") t) :
    runs s (p + d.length) [.savePort] (some ⟨some p, u⟩) = some ⟨none, withPort u d⟩ := by
  by_cases hnil : d = []
  · subst hnil
    simp [runs, act, UriReader.act, withPort]
  · have hstop : (t.headD 0).toNat < 48 ∨ 57 < (t.headD 0).toNat := by
      have hbytes : ∀ c ∈ ascii "/?#", c.toNat < 48 ∨ 57 < c.toNat := by decide
      rcases ht with rfl | ⟨c, e, rfl, hc⟩
      · exact .inl (by decide)
      · exact hbytes c hc
    have hvalue : UriReader.atoi (s.drop p) = int32 (min (2 ^ 63 - 1) (digits 10 0 d : Int)) := by
      rw [UriReader.atoi, hs, strtol_decimal hnil (fun c hc => has_digit (hd c hc)) hstop]
    simp [runs, act, UriReader.act, withPort, hnil, hvalue]

theorem outcome_port (hd : ∀ c ∈ d, digit.has c = true) (ht : Behind (ascii "/?#") t) (hs : s.drop p = d ++ t) :
    ∃ cs r, outcome s p (colonState user stored) (some x) (d ++ t) = outcome s (p + d.length) cs r t ∧
      AuthorityRead s (p + d.length) stored (withPort x.uri d) (d = []) cs r := by
  have hset := savePort_runs (u := x.uri) hs hd ht
  cases d with
  | nil => exact ⟨colonState user stored, some x, rfl, [.mark, .savePort], _, colon_closes, hset, rfl, fun _ => rfl,
      fun _ h => absurd rfl h⟩
  | cons c d =>
    have hall : (c :: d).all digit.has = true := List.all_eq_true.mpr hd
    have hstop : ∀ e ∈ c :: d, outside (portStop user) e = true := by
      have hbytes : ∀ user, ∀ b ∈ portStop user, digit.has b = false := by decide
      refine fun e he => decide_eq_true fun hmem => Bool.false_ne_true ?_
      rw [← hbytes user e hmem]
      exact hd e he
    obtain ⟨j, hrun⟩ : ∃ j, (c :: d).foldlM portNext (portStart user) = some (some (), j) := by
      rw [port_run, if_pos hall]
      exact ⟨_, rfl⟩
    have hplace := foldlM_closed port_closed portStart_place hrun
    refine ⟨portCode stored (some (), j), some { x with mark := some p }, ?_, portCloses stored, ?_⟩
    · rw [outcome_colon hstop, hrun, Option.elim_some, if_pos (hd c List.mem_cons_self)]
    · cases stored with
      | false => exact ⟨_, port_closes hplace rfl, hset, rfl, fun h => absurd h (List.cons_ne_nil _ _), fun h => by cases h⟩
      | true =>
        have hmark : runs s (p + (c :: d).length) (portCloses true) (some ⟨some p, x.uri⟩) =
            some ⟨some (p + (c :: d).length), withPort x.uri (c :: d)⟩ :=
          runs_append.trans (congrArg (runs s _ [.mark]) hset)
        exact ⟨_, port_closes hplace rfl, hmark, rfl, fun h => absurd h (List.cons_ne_nil _ _), fun _ _ => rfl⟩

theorem outcome_badPort (hstop : ∀ c ∈ d, outside (portStop user) c = true) (hd : ¬∀ c ∈ d, digit.has c = true)
    (ht : Behind (ascii "/?#") t) : outcome s p (colonState user stored) (some x) (d ++ t) = .ok none := by
  have hall : ¬d.all digit.has = true := fun h => hd (List.all_eq_true.mp h)
  cases d with
  | nil => exact absurd rfl hall
  | cons c d =>
    rw [outcome_colon hstop]
    rcases hrun : (c :: d).foldlM portNext (portStart user) with _ | q
    · rfl
    · have hplace := foldlM_closed port_closed portStart_place hrun
      rw [port_run, if_neg hall] at hrun
      obtain ⟨-, rfl⟩ := either_eq_some.mp hrun
      exact outcome_undigested hplace nofun ht

/-- Where the userinfo ends before a `@`: from the first colon on, if a digit follows it. -/
def keptUserinfo (s : Bytes) (m p : Nat) (d : Bytes) : Bytes :=
  if d.head?.any digit.has then d else (s.drop m).take (p - m)

theorem userinfo_of_run (hrun : d.foldlM portNext (portStart true) = some q) : q.2 = some 0 ↔ encoded userChar d = true := by
  rw [port_run] at hrun
  obtain ⟨-, rfl⟩ := either_eq_some.mp hrun
  exact encoded_iff_run.symm

theorem not_userinfo_of_run (hrun : d.foldlM portNext (portStart true) = none) : encoded userChar d = false := by
  rw [port_run] at hrun
  have hnone : d.foldlM (pctNext userChar) 0 = none := (either_eq_none.mp hrun).2
  rw [Bool.eq_false_iff, Ne, encoded_iff_run, hnone]
  exact nofun

theorem outcome_userinfo {u : Uri} (hstop : ∀ c ∈ d, outside (portStop true) c = true) (hs : s.drop p = d ++ 64 :: t) :
    outcome s p (colonState true stored) (some ⟨some m, u⟩) (d ++ 64 :: t) =
      if encoded userChar d then
        outcome s (p + d.length + 1) (hostStart false stored)
          (some ⟨none, { u with userinfo := keptUserinfo s m (p + d.length) d }⟩) t
      else .ok none := by
  have hset : ∀ m, runs s (p + d.length) [.saveUserinfo] (some ⟨some m, u⟩) =
      some ⟨none, { u with userinfo := (s.drop m).take (p + d.length - m) }⟩ := fun m => rfl
  cases d with
  | nil =>
    have hedge : edge table (colonState true stored) 64 = some (hostStart false stored, [.saveUserinfo]) := edge_colon
    have hnil : encoded userChar [] = true := rfl
    rw [if_pos hnil, List.nil_append, outcome_cons hedge]
    exact congrArg (fun r => outcome s (p + 1) (hostStart false stored) r t) (hset m)
  | cons c d =>
    rw [outcome_colon hstop]
    rcases hrun : (c :: d).foldlM portNext (portStart true) with _ | q
    · rw [not_userinfo_of_run hrun, if_neg Bool.false_ne_true]
      rfl
    · have hat : edge table (portCode stored q) 64 =
          if q.2 = some 0 then some (hostStart false stored, [.saveUserinfo]) else none := by
        rw [edge_port (foldlM_closed port_closed portStart_place hrun), portEdge, if_neg (by decide), if_pos (by decide)]
      rw [Option.elim_some]
      by_cases hq : q.2 = some 0
      · rw [if_pos hq] at hat
        rw [if_pos ((userinfo_of_run hrun).mp hq), outcome_cons hat]
        by_cases hc : digit.has c = true
        · have htext : (s.drop p).take (p + (c :: d).length - p) = c :: d := by simp [hs]
          have hkept : keptUserinfo s m (p + (c :: d).length) (c :: d) = c :: d := if_pos hc
          rw [if_pos hc, hset, htext, hkept]
        · have hkept : keptUserinfo s m (p + (c :: d).length) (c :: d) = _ := if_neg hc
          rw [if_neg hc, hset, hkept]
      · rw [if_neg hq] at hat
        rw [if_neg fun h => hq ((userinfo_of_run hrun).mpr h)]
        exact outcome_none hat

end Uri
end MyHttp
