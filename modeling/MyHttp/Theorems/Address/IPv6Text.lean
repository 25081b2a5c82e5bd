import MyHttp.Address

/-! The text of an IPv6 address: what `insert` writes between the brackets is read back as the address. -/

namespace MyHttp
namespace IPv6Address

open Lib.AddressText Lib.Bits Lib.CString Lib.Machine

variable {host : Endian} {a b : IPv6Address} {os text : Bytes} {gs : List (BitVec 16)} {used : Bool} {n : Nat}

/-- A group of an address: two of its bytes, the higher one first. -/
def group (a : IPv6Address) (i : Nat) : BitVec 16 := a.addr (place (2 * i)) ++ a.addr (place (2 * i + 1))

/-- The eight groups of an address. -/
def groups (a : IPv6Address) : List (BitVec 16) := (List.range 8).map a.group

/-- The text between the brackets. -/
def bracketed (host : Endian) (a : IPv6Address) : Bytes := (a.insert host []).tail.takeWhile (· ≠ 93)

/-! ### Words and groups -/

theorem swap_word (host : Endian) (a : IPv6Address) (i : Nat) : byteswapOnLittleEndian host (a.word host i) = a.group i := by
  cases host
  · exact byteswap_append ..
  · rfl

theorem word_eq_zero {i : Nat} : a.word host i = 0 ↔ a.group i = 0 := by
  rw [← swap_word host]
  unfold byteswapOnLittleEndian
  split
  · constructor
    · intro h
      rw [h]
      exact byteswap_zero
    · intro h
      rw [← byteswap_byteswap (x := a.word host i) (by decide), h]
      exact byteswap_zero
  · rfl

theorem addr_of_groups (h : a.groups = b.groups) : a.addr = b.addr := by
  funext j
  have hmem : j.val / 2 ∈ List.range 8 := List.mem_range.mpr (by omega)
  obtain ⟨hhigh, hlow⟩ := append_inj (List.map_inj_left.mp h _ hmem)
  rcases Nat.mod_two_eq_zero_or_one j.val with heven | hodd
  · have hj : place (2 * (j.val / 2)) = j := Fin.ext ((Nat.mod_eq_of_lt (by omega)).trans (by omega))
    rwa [hj] at hhigh
  · have hj : place (2 * (j.val / 2) + 1) = j := Fin.ext ((Nat.mod_eq_of_lt (by omega)).trans (by omega))
    rwa [hj] at hlow

/-! ### The loop -/

/-- The text after some groups: before a gap, or behind it. Zeros at the end are not written before the gap is. -/
inductive Written (gs : List (BitVec 16)) : Bytes → Bool → Prop
  | plain {front : List (BitVec 16)} {z : Nat} : (∀ g ∈ front, g ≠ 0) → gs = front ++ List.replicate z 0 →
      Written gs (joined front) false
  | gap {front back : List (BitVec 16)} {z : Nat} : 0 < z → back ≠ [] → gs = front ++ List.replicate z 0 ++ back →
      Written gs (joined front ++ ascii "::" ++ joined back) true

theorem groups_concat (a : IPv6Address) (n : Nat) :
    (List.range (n + 1)).map a.group = (List.range n).map a.group ++ [a.group n] := by
  rw [List.range_succ, List.map_append]
  rfl

/-- The group before is the last one. -/
theorem last_group (hn : 0 < n) : ((List.range n).map a.group).getLast? = some (a.group (n - 1)) := by
  obtain ⟨m, rfl⟩ := Nat.exists_eq_add_of_le' hn
  rw [groups_concat, List.getLast?_concat]
  rfl

/-- A group of zeros is left out before the gap. -/
theorem insertGroup_zero (h : a.group n = 0) : a.insertGroup host (os, false) n = (os, false) :=
  if_pos ⟨word_eq_zero.mpr h, rfl⟩

/-- Behind a group other than zero there is a colon. -/
theorem insertGroup_next (h : a.group n ≠ 0) (hprev : 0 < n → a.group (n - 1) ≠ 0) :
    a.insertGroup host (os, false) n = (os ++ (if 0 < n then ascii ":" else []) ++ hexText (a.group n).toNat, false) := by
  have hgap : ¬(0 < n ∧ a.word host (n - 1) = 0 ∧ false = false) := fun ⟨hn, hzero, _⟩ => hprev hn (word_eq_zero.mp hzero)
  rw [insertGroup]
  dsimp only
  rw [if_neg fun hskip => h (word_eq_zero.mp hskip.1), if_neg hgap, swap_word]
  dsimp only
  split <;> simp only [List.append_nil]

/-- Behind the zeros there is the gap. -/
theorem insertGroup_gap (h : a.group n ≠ 0) (hn : 0 < n) (hprev : a.group (n - 1) = 0) :
    a.insertGroup host (os, false) n = (os ++ ascii "::" ++ hexText (a.group n).toNat, true) := by
  have hgap : 0 < n ∧ a.word host (n - 1) = 0 ∧ false = false := ⟨hn, word_eq_zero.mpr hprev, rfl⟩
  rw [insertGroup]
  dsimp only
  rw [if_neg fun hskip => h (word_eq_zero.mp hskip.1), if_pos hgap, swap_word]
  dsimp only
  rw [if_pos hn, List.append_assoc os]
  rfl

/-- Behind the gap every group is written. -/
theorem insertGroup_behind (hn : 0 < n) :
    a.insertGroup host (os, true) n = (os ++ ascii ":" ++ hexText (a.group n).toNat, true) := by
  have hgap : ¬(0 < n ∧ a.word host (n - 1) = 0 ∧ true = false) := fun h => Bool.noConfusion h.2.2
  rw [insertGroup]
  dsimp only
  rw [if_neg fun hskip => Bool.noConfusion hskip.2, if_neg hgap, swap_word]
  dsimp only
  rw [if_pos hn]

/-- One more round writes one more group. -/
theorem insertGroup_written (h : Written ((List.range n).map a.group) text used) :
    ∃ text' used', (∀ os, a.insertGroup host (os ++ text, used) n = (os ++ text', used')) ∧
      Written ((List.range (n + 1)).map a.group) text' used' := by
  have hlength : ((List.range n).map a.group).length = n := by rw [List.length_map, List.length_range]
  have hlast := last_group (a := a) (n := n)
  rw [groups_concat]
  generalize (List.range n).map a.group = gs at h hlength hlast
  cases h with
  | @plain front z hfront heq =>
    by_cases hzero : a.group n = 0
    · refine ⟨joined front, false, fun os => insertGroup_zero hzero, .plain (z := z + 1) hfront ?_⟩
      rw [heq, hzero, List.replicate_succ', List.append_assoc]
    · cases z with
      | zero =>
        have hgs : gs = front := heq.trans (List.append_nil front)
        have hprev : 0 < n → a.group (n - 1) ≠ 0 := fun hn => hfront _ (hgs ▸ List.mem_of_getLast? (hlast hn))
        have hnil : (if 0 < n then ascii ":" else []) = if front = [] then [] else [58] := by
          rw [← hlength, ← hgs]
          cases gs <;> rfl
        refine ⟨joined (front ++ [a.group n]), false, fun os => ?_, .plain (z := 0) ?_ ?_⟩
        · rw [insertGroup_next hzero hprev, joined_concat, hnil, List.append_assoc, List.append_assoc, List.append_assoc]
        · intro g hg
          rcases List.mem_append.mp hg with hg | hg
          · exact hfront g hg
          · exact List.mem_singleton.mp hg ▸ hzero
        · rw [hgs]
          exact (List.append_nil _).symm
      | succ z =>
        have hpos : 0 < n := by
          rw [← hlength, heq, List.length_append, List.length_replicate]
          exact Nat.succ_pos _
        have hprev : a.group (n - 1) = 0 := by
          have hend := hlast hpos
          rw [heq, List.replicate_succ', ← List.append_assoc, List.getLast?_concat] at hend
          exact (Option.some.inj hend).symm
        refine ⟨joined front ++ ascii "::" ++ joined [a.group n], true, fun os => ?_,
          .gap (z := z + 1) (Nat.succ_pos z) (List.cons_ne_nil _ _) (heq ▸ rfl)⟩
        rw [insertGroup_gap hzero hpos hprev, joined_singleton]
        simp only [List.append_assoc]
  | @gap front back z hz hback heq =>
    have hpos : 0 < n := by
      rw [← hlength, heq, List.length_append]
      exact Nat.add_pos_right _ (List.length_pos_iff.mpr hback)
    refine ⟨joined front ++ ascii "::" ++ joined (back ++ [a.group n]), true, fun os => ?_,
      .gap hz (List.append_ne_nil_of_right_ne_nil _ (List.cons_ne_nil _ _)) ?_⟩
    · rw [insertGroup_behind hpos, joined_concat, if_neg hback]
      simp only [List.append_assoc]
      rfl
    · rw [heq]
      simp only [List.append_assoc]

/-- The text after every number of rounds. -/
theorem insert_written (host : Endian) (a : IPv6Address) (n : Nat) :
    ∃ text used, (∀ os, (List.range n).foldl (a.insertGroup host) (os, false) = (os ++ text, used)) ∧
      Written ((List.range n).map a.group) text used := by
  induction n with
  | zero =>
    have hnone : ∀ g ∈ ([] : List (BitVec 16)), g ≠ 0 := fun g hg => nomatch hg
    exact ⟨[], false, fun os => congrArg (·, false) (List.append_nil os).symm, .plain (z := 0) hnone rfl⟩
  | succ n ih =>
    obtain ⟨text, used, hrun, hwritten⟩ := ih
    obtain ⟨text', used', hround, hwritten'⟩ := insertGroup_written hwritten
    refine ⟨text', used', fun os => ?_, hwritten'⟩
    rw [List.range_succ, List.foldl_append, hrun]
    exact hround os

/-! ### The whole text -/

/-- What is written of eight groups, with a gap at the end for the zeros there, is read back. -/
theorem Written.read (h : Written gs text used) (hlength : gs.length = 8) :
    readAddress (text ++ if used = false ∧ gs.getLast? = some 0 then ascii "::" else []) = some gs := by
  cases h with
  | @plain front z hfront heq =>
    cases z with
    | zero =>
      obtain rfl : gs = front := heq.trans (List.append_nil front)
      rw [if_neg fun h => hfront 0 (List.mem_of_getLast? h.2) rfl, List.append_nil]
      exact readAddress_joined hlength
    | succ z =>
      have hlast : gs.getLast? = some 0 := by
        rw [heq, List.replicate_succ', ← List.append_assoc, List.getLast?_concat]
      have hroom : front.length + ([] : List (BitVec 16)).length ≤ 7 ∧
          8 - (front.length + ([] : List (BitVec 16)).length) = z + 1 := by
        rw [heq, List.length_append, List.length_replicate] at hlength
        rw [List.length_nil]
        omega
      rw [if_pos ⟨rfl, hlast⟩]
      refine (readAddress_gap hroom.1).trans ?_
      rw [hroom.2, List.append_nil, heq]
  | @gap front back z hz hback heq =>
    have hroom : front.length + back.length ≤ 7 ∧ 8 - (front.length + back.length) = z := by
      rw [heq, List.length_append, List.length_append, List.length_replicate] at hlength
      omega
    rw [if_neg fun h => Bool.noConfusion h.1, List.append_nil, List.append_assoc]
    refine (readAddress_gap hroom.1).trans ?_
    rw [hroom.2, heq]

theorem Written.notMem (h : Written gs text used) : 93 ∉ text := by
  have hjoined : ∀ gs, (93 : UInt8) ∉ joined gs := fun gs => notMem_joined (by decide) (by decide)
  cases h with
  | @plain front => exact hjoined front
  | @gap front back =>
    rw [List.mem_append, List.mem_append, not_or, not_or]
    exact ⟨⟨hjoined front, by decide⟩, hjoined back⟩

/-- What stands in the brackets is read back, and has no bracket. -/
theorem insert_eq (host : Endian) (a : IPv6Address) :
    ∃ text, (∀ os, a.insert host os =
        os ++ ascii "[" ++ text ++ ascii "]:" ++ ascii (toString (a.getPort host).toNat)) ∧
      93 ∉ text ∧ readAddress text = some a.groups := by
  obtain ⟨text, used, hrun, hwritten⟩ := insert_written host a 8
  change Written a.groups text used at hwritten
  have hlast : a.groups.getLast? = some 0 ↔ a.word host 7 = 0 := by
    have hseven : a.groups.getLast? = some (a.group 7) := last_group (by decide)
    rw [hseven, Option.some_inj, word_eq_zero]
  refine ⟨_, fun os => ?_, ?_, hwritten.read rfl⟩
  · rw [insert, hrun]
    simp only [hlast]
    split
    · simp only [List.append_assoc]
    · simp only [List.append_assoc, List.nil_append]
  · rw [List.mem_append, not_or]
    refine ⟨hwritten.notMem, ?_⟩
    split
    · decide
    · exact List.not_mem_nil

theorem insert_bracketed (host : Endian) (a : IPv6Address) (os : Bytes) :
    a.insert host os = os ++ ascii "[" ++ bracketed host a ++ ascii "]:" ++ ascii (toString (a.getPort host).toNat) ∧
      readAddress (bracketed host a) = some a.groups := by
  obtain ⟨text, htext, hclose, hread⟩ := insert_eq host a
  have hinside : bracketed host a = text := by
    have hne : ∀ c ∈ text, decide (c ≠ 93) = true := fun c hc => decide_eq_true fun heq => hclose (heq ▸ hc)
    have hrest : ((a.insert host []).tail) = text ++ 93 :: (58 :: ascii (toString (a.getPort host).toNat)) := by
      rw [htext]
      simp only [List.append_assoc]
      rfl
    rw [bracketed, hrest, List.takeWhile_append_of_pos hne, List.takeWhile_cons]
    exact List.append_nil text
  rw [hinside]
  exact ⟨htext os, hread⟩

/-- The text in the brackets is that of the address, and so no two addresses have the same. -/
theorem insert_faithful (host : Endian) (a b : IPv6Address) (os : Bytes) :
    (a.insert host os = os ++ ascii "[" ++ bracketed host a ++ ascii "]:" ++ ascii (toString (a.getPort host).toNat) ∧
      readAddress (bracketed host a) = some a.groups) ∧ (bracketed host a = bracketed host b → a.addr = b.addr) := by
  refine ⟨insert_bracketed host a os, fun h => addr_of_groups ?_⟩
  have hread := (insert_bracketed host a os).2
  rw [h, (insert_bracketed host b os).2] at hread
  exact (Option.some.inj hread).symm

end IPv6Address
end MyHttp
