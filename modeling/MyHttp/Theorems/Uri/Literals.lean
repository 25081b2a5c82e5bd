import MyHttp.Theorems.Uri.Groups
import MyHttp.Theorems.Uri.Hosts

/-! Hosts in brackets. -/

namespace MyHttp
namespace Uri

open Lib.CString Lib.Scan UriParser

variable {s w t : Bytes} {p cs : Nat} {c : UInt8} {x : UriReader} {stored : Bool} {q : LiteralPlace}

/-! ### The states of an address -/

/-- The states of a slot: before the first byte, the one that the states of its digits are counted from, the first digit
    where no `IPv4address` can begin, and the first of those where one can have begun. -/
structure SlotCodes where
  start : Nat
  hex : Nat
  first : Nat
  block : Nat

def slotCodes (x : Slot) : SlotCodes :=
  if x.most = 0 then ⟨305, 0, 0, 0⟩
  else if x.most = 1 then ⟨if x.front then 322 else 333, 322, 323, 0⟩
  else if x.least ≠ x.most then
    let start := 369 + 5 * (7 - x.most)
    let block := 399 + 8 * (x.most - 2)
    ⟨start, start, block + 7, block⟩
  else if x.front then
    let start := 260 + 5 * (8 - x.most)
    if x.most = 2 then ⟨start, 317, 334, 326⟩ else ⟨start, start, start + 1, 0⟩
  else if x.most = 2 then ⟨335, 335, 347, 340⟩
  else ⟨333 + 5 * x.most, 333 + 5 * x.most, 334 + 5 * x.most, 0⟩

def SlotCodes.code (a : SlotCodes) : Group → Nat
  | (some 1, some (_, .full)) => a.hex + 1
  | (some 1, some (_, .one)) => a.block
  | (some 2, some (_, .more)) => a.block + 1
  | (some 3, some (_, .full)) => a.block + 2
  | (some 1, some (_, .two)) => a.block + 3
  | (some 2, some (_, .full)) => a.block + 4
  | (some 2, some (_, .twoFive)) => a.block + 5
  | (some 1, some (_, .more)) => a.block + 6
  | (some 1, none) => a.first
  | (some (j + 2), none) => if a.hex = 322 ∧ j = 2 then 305 else a.hex + j + 2
  | _ => a.start

def LiteralPlace.code : LiteralPlace → Nat
  | .begun => 260
  | .lead => 368
  | .slot x g => (slotCodes x).code g
  | .quad (k, o) => HiddenCodes.code ⟨291, 310, 305, 306⟩ k o
  | .future j => 447 + j

/-- Without a scheme the states are others, in the same order. -/
def literalCode (stored : Bool) (q : LiteralPlace) : Nat := if stored then q.code else q.code - 222

def hexGroups : List Group := [(some 1, none), (some 2, none), (some 3, none), (some 4, none)]

/-- The places in a group that may be the first octet of an `IPv4address`. -/
def octetGroups : List Group :=
  [(some 1, some (0, .full)), (some 1, some (0, .one)), (some 2, some (0, .more)), (some 3, some (0, .full)),
    (some 1, some (0, .two)), (some 2, some (0, .full)), (some 2, some (0, .twoFive)), (some 1, some (0, .more))]

def slots : List Slot :=
  [1, 2, 3, 4, 5, 6, 7].map (fun n => ⟨true, n, n⟩) ++ [1, 2, 3, 4, 5, 6].map (fun n => ⟨false, n, n⟩) ++
    LiteralPlace.loose :: [2, 3, 4, 5, 6].map fun n => ⟨false, 1, n⟩

/-- The groups of a slot in which an `IPv4address` may begin, or may not. -/
def slotGroups (two : Bool) : List Group :=
  (some 0, if two then some (0, .start) else none) :: hexGroups ++ if two then octetGroups else []

def slotPlaces (x : Slot) : List LiteralPlace := (slotGroups (x.least ≤ 2 && 2 ≤ x.most)).map (.slot x)

/-- The places that are not in a group of a slot. -/
def otherPlaces : List LiteralPlace :=
  [.begun, .lead, .future 0, .future 1, .future 2, .future 3, .slot ⟨false, 0, 0⟩ (none, none)] ++
    hexGroups.map (.slot LiteralPlace.first) ++ hiddenQuads.map .quad

def literalPlaces : List LiteralPlace := otherPlaces ++ slots.flatMap slotPlaces

theorem literalNext_alike (q : LiteralPlace) {c d : UInt8} (hcd : Alike classes c d) : q.next c = q.next d := by
  have hh16 : ∀ j, h16Next j c = h16Next j d := fun j => by rw [h16Next, h16Next, hcd xdigit (by decide)]
  have hquad : ∀ o, quadNext o c = quadNext o d := fun o => quadNext_alike hcd
  have hgroup : ∀ g, groupNext g c = groupNext g d := fun g => by simp only [groupNext, beside, hh16, hquad]
  have hslot : ∀ x g, LiteralPlace.slotNext x g c = LiteralPlace.slotNext x g d := fun x g => by
    simp only [LiteralPlace.slotNext, hgroup, hcd (byte 58) (by decide)]
  have hcolon := hcd (byte 58) (by decide)
  have hv := hcd (byte 118) (by decide)
  have hdot := hcd (byte 46) (by decide)
  have hhex := hcd xdigit (by decide)
  have hchar := hcd userChar (by decide)
  rcases q with _ | _ | ⟨y, g⟩ | o | _ | _ | j <;>
    simp only [LiteralPlace.next, hslot, hquad, hcolon, hv, hdot, hhex, hchar]

theorem literal_rows : ∀ q ∈ literalPlaces, rowAgrees table (literalCode stored q) (kinds.filter (outside (ascii "]")))
    (fun c => (q.next c).map fun q' => (literalCode stored q', [])) = true := by
  have hkinds : kinds.filter (outside (ascii "]")) =
      [0, 2, 33, 35, 37, 43, 46, 47, 48, 49, 50, 51, 53, 54, 58, 63, 64, 65, 71, 91, 118, 128] := by decide
  rw [hkinds]
  cases stored <;> decide +kernel

/-! ### Closed under the machine -/

theorem literal_kinds :
    (∀ two, ∀ g ∈ slotGroups two, ∀ d ∈ kinds, ∀ g' ∈ groupNext g d,
      g' ∈ slotGroups two ++ hiddenQuads.map fun o => (none, some o)) ∧
    (∀ y ∈ slots, ∀ j ∈ [0, 1, 2, 3, 4], ∀ q' ∈ LiteralPlace.colon y j, q' ∈ literalPlaces) ∧
    ∀ q ∈ otherPlaces, ∀ d ∈ kinds, ∀ q' ∈ q.next d, q' ∈ literalPlaces := by
  decide +kernel

theorem literal_closed : ∀ q ∈ literalPlaces, ∀ c, ∀ q' ∈ q.next c, q' ∈ literalPlaces := by
  obtain ⟨hgroups, hcolons, hothers⟩ := literal_kinds
  intro q hq c q' hq'
  obtain ⟨d, hd, hcd⟩ := exists_alike c
  rw [literalNext_alike q hcd] at hq'
  rcases List.mem_append.mp hq with hother | hslot
  · exact hothers q hother d hd q' hq'
  obtain ⟨y, hy, hq⟩ := List.mem_flatMap.mp hslot
  obtain ⟨g, hg, rfl⟩ := List.mem_map.mp hq
  have hcount : ∀ two, ∀ g ∈ slotGroups two, ∀ j ∈ g.1, j ∈ [0, 1, 2, 3, 4] := by decide
  have hplain : ∀ two, ∀ g ∈ slotGroups two, LiteralPlace.ofGroup y g = .slot y g := by
    have hne : ∀ two, ∀ g ∈ slotGroups two, g.1 ≠ none := by decide
    rintro two ⟨_ | j, _ | o⟩ hg
    · rfl
    · exact absurd rfl (hne two _ hg)
    · rfl
    · rfl
  have hq' : LiteralPlace.slotNext y g d = some q' := hq'
  unfold LiteralPlace.slotNext at hq'
  split_ifs at hq'
  · obtain ⟨j, hj, hq'⟩ := Option.bind_eq_some_iff.mp hq'
    exact hcolons y hy j (hcount _ g hg j hj) q' hq'
  · obtain ⟨g', hg', rfl⟩ := Option.map_eq_some_iff.mp hq'
    rcases List.mem_append.mp (hgroups _ g hg d hd g' hg') with hg' | hg'
    · rw [hplain _ g' hg']
      exact List.mem_append_right _ (List.mem_flatMap.mpr ⟨y, hy, List.mem_map_of_mem hg'⟩)
    · obtain ⟨o, ho, rfl⟩ := List.mem_map.mp hg'
      exact List.mem_append_left _ (List.mem_append_right _ (List.mem_map_of_mem ho))

theorem literal_region : Region table (literalCode stored) LiteralPlace.next literalPlaces (outside (ascii "]")) where
  edge q hq _ hc := edge_of_kinds (by decide) (fun c d hcd => by rw [literalNext_alike q hcd]) (literal_rows q hq) hc
  closed q hq c q' _ hq' := literal_closed q hq c q' hq'

/-! ### Bytes that are in no address -/

theorem quadNext_free : ∀ c ∈ 0 :: ascii "[]:@/?#", ∀ o, quadNext o c = none := by
  have hnext : ∀ c ∈ 0 :: ascii "[]:@/?#", ∀ o : Octet, o.next c = none := by
    intro c hc o
    revert c
    cases o <;> decide
  rintro c hc ⟨k, o⟩
  have hdot : c ≠ 46 := by
    rintro rfl
    exact absurd hc (by decide)
  rw [quadNext, has_dot, decide_eq_false hdot, if_neg Bool.false_ne_true, hnext c hc]
  rfl

theorem groupNext_free : ∀ c ∈ 0 :: ascii "]@/?#", ∀ g, groupNext g c = none := by
  intro c hc g
  have hsub : ∀ c ∈ 0 :: ascii "]@/?#", xdigit.has c = false ∧ c ∈ 0 :: ascii "[]:@/?#" := by decide
  obtain ⟨hhex, hquad⟩ := hsub c hc
  have hh16 : ∀ j, h16Next j c = none := fun j => if_neg fun h => Bool.false_ne_true (hhex ▸ h.1)
  rcases g with ⟨_ | j, _ | o⟩ <;> simp [groupNext, beside, either, hh16, quadNext_free c hquad]

theorem next_free : ∀ c ∈ 0 :: ascii "]@/?#", ∀ q : LiteralPlace, q.next c = none := by
  intro c hc q
  have hcolon : ∀ c ∈ 0 :: ascii "]@/?#", (byte 58).has c = false ∧ c ∈ 0 :: ascii "[]:@/?#" := by decide
  have hslot : ∀ x g, LiteralPlace.slotNext x g c = none := fun x g => by
    rw [LiteralPlace.slotNext, (hcolon c hc).1, groupNext_free c hc]
    rfl
  have hothers : ∀ c ∈ 0 :: ascii "]@/?#", ∀ q ∈ [LiteralPlace.begun, .lead, .future 0, .future 1], q.next c = none := by decide
  rcases q with _ | _ | ⟨y, g⟩ | o | _ | _ | j
  · exact hothers c hc _ (by decide)
  · exact hothers c hc _ (by decide)
  · exact hslot y g
  · rw [LiteralPlace.next, quadNext_free c (hcolon c hc).2]
    rfl
  · exact hothers c hc _ (by decide)
  · exact hothers c hc _ (by decide)
  · have hnext : (LiteralPlace.future (j + 2)).next c = if userChar.has c then some (.future 3) else none := rfl
    have hchar : ∀ c ∈ 0 :: ascii "]@/?#", userChar.has c = false := by decide
    rw [hnext, hchar c hc]
    rfl

theorem reads_free (h : q.reads w = true) (hc : c ∈ 0 :: ascii "]@/?#") : c ∉ w := by
  obtain ⟨q', hrun, -⟩ := (Option.any_eq_true _ _).mp h
  exact not_mem_of_foldlM (next_free c hc) hrun

/-! ### Where a host in brackets ends -/

/-- Behind the closing bracket. -/
def literalEnd (stored : Bool) : Nat := if stored then 512 else 460

/-- A host in brackets ends at the closing one only. -/
theorem literal_ends : ∀ q ∈ literalPlaces, rowAgrees table (literalCode stored q) [93]
    (fun _ => if q.complete then some (literalEnd stored, []) else none) = true ∧ literalCode stored q < 451 := by
  cases stored <;> decide +kernel

theorem edge_bracket (hq : q ∈ literalPlaces) :
    edge table (literalCode stored q) 93 = if q.complete then some (literalEnd stored, []) else none :=
  edge_of_rowAgrees table_asks table_numbered ⟨93, List.mem_singleton_self _, fun _ _ => rfl⟩ (fun _ _ => rfl)
    (literal_ends q hq).1

theorem begun_place : LiteralPlace.begun ∈ literalPlaces := by decide

/-- Up to the closing bracket. -/
theorem outcome_literal (hw : ∀ c ∈ w, outside (ascii "]") c = true) :
    outcome s p (literalCode stored .begun) (some x) (w ++ 93 :: t) =
      if LiteralPlace.begun.reads w then outcome s (p + w.length + 1) (literalEnd stored) (some x) t else .ok none := by
  rw [outcome_region literal_region begun_place hw, LiteralPlace.reads]
  rcases hrun : w.foldlM LiteralPlace.next .begun with _ | q
  · rfl
  · have hedge : edge table (literalCode stored q) 93 = _ := edge_bracket (foldlM_closed literal_closed begun_place hrun)
    rw [Option.elim_some, Option.any_some]
    by_cases hdone : q.complete = true
    · rw [if_pos hdone] at hedge
      rw [if_pos hdone, outcome_cons hedge]
      rfl
    · rw [if_neg hdone] at hedge
      rw [if_neg hdone]
      exact outcome_none hedge

theorem outcome_unclosed (hw : ∀ c ∈ w, outside (ascii "]") c = true) (ht : Behind (ascii "/?#") t) :
    outcome s p (literalCode stored .begun) (some x) (w ++ t) = .ok none := by
  rw [outcome_region literal_region begun_place hw]
  rcases hrun : w.foldlM LiteralPlace.next .begun with _ | q
  · rfl
  · have hplace := foldlM_closed literal_closed begun_place hrun
    rw [Option.elim_some]
    rcases ht with rfl | ⟨c, d, rfl, hc⟩
    · exact outcome_unfinished (literal_ends q hplace).2
    · have hbyte : ∀ c ∈ ascii "/?#", outside (ascii "]") c = true ∧ c ∈ 0 :: ascii "]@/?#" := by decide
      refine outcome_none ?_
      rw [literal_region.edge q hplace c (hbyte c hc).1, next_free c (hbyte c hc).2]
      rfl

end Uri
end MyHttp
