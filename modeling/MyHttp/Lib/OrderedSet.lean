import Mathlib.Data.List.Pairwise
import Mathlib.Data.List.TakeDrop

/-! An ordered set kept as the list of its elements, under an order that its user may change. The search walks to the
    first element that is not before the one sought, so it finds an element only where the list is in order. -/

namespace Lib.OrderedSet

universe u
variable {α : Type u} (lt : α → α → Prop) [DecidableRel lt] {l l₁ l₂ : List α} {a b : α} {i : Nat}

/-- The place of the first element that is not before `a`. -/
def lowerBound (l : List α) (a : α) : Nat := l.findIdx fun b => ¬lt b a

/-- The place of the first element behind `a`. -/
def upperBound (l : List α) (a : α) : Nat := l.findIdx fun b => lt a b

/-- The place of an element equivalent to `a`; `none` is the end. -/
def find (l : List α) (a : α) : Option Nat :=
  if ∃ b ∈ l[lowerBound lt l a]?, ¬lt a b then some (lowerBound lt l a) else none

/-- The set with `a`, and the place of `a` in it; an equivalent element is kept. -/
def insert (l : List α) (a : α) : List α × Nat :=
  match find lt l a with
  | some i => (l, i)
  | none => (l.take (lowerBound lt l a) ++ a :: l.drop (lowerBound lt l a), lowerBound lt l a)

variable {lt}

theorem not_lt_lowerBound (h : lowerBound lt l a < l.length) : ¬lt l[lowerBound lt l a] a :=
  of_decide_eq_true (List.findIdx_getElem (w := h))

theorem find_eq_some (h : find lt l a = some i) : ∃ b, l[i]? = some b ∧ ¬lt b a ∧ ¬lt a b := by
  unfold find at h
  split at h
  case isTrue hb =>
    obtain ⟨b, hb, hab⟩ := hb
    obtain rfl := Option.some.inj h
    obtain ⟨hlt, rfl⟩ := List.getElem?_eq_some_iff.mp hb
    exact ⟨_, hb, not_lt_lowerBound hlt, hab⟩
  case isFalse => cases h

/-! ### Element by element -/

theorem lowerBound_cons : lowerBound lt (b :: l) a = if lt b a then lowerBound lt l a + 1 else 0 := by
  unfold lowerBound
  rw [List.findIdx_cons]
  by_cases hba : lt b a <;> simp [hba]

theorem find_cons : find lt (b :: l) a =
    if lt b a then (find lt l a).map (· + 1) else if lt a b then none else some 0 := by
  unfold find
  rw [lowerBound_cons]
  by_cases hba : lt b a
  · rw [if_pos hba, if_pos hba, List.getElem?_cons_succ]
    split <;> rfl
  · rw [if_neg hba, if_neg hba, List.getElem?_cons_zero]
    by_cases hab : lt a b <;> simp [hab]

theorem insert_cons : (insert lt (b :: l) a).1 =
    if lt b a then b :: (insert lt l a).1 else if lt a b then a :: b :: l else b :: l := by
  unfold insert
  rw [find_cons, lowerBound_cons]
  by_cases hba : lt b a
  · simp only [if_pos hba]
    cases find lt l a <;> rfl
  · simp only [if_neg hba]
    by_cases hab : lt a b
    · simp only [if_pos hab]
      rfl
    · simp only [if_neg hab]

/-! ### A list in order -/

omit [DecidableRel lt] in
theorem nodup_of_sorted [Std.Irrefl lt] (hs : l.Pairwise lt) : l.Nodup :=
  hs.imp fun {a b} h => by rintro rfl; exact Std.Irrefl.irrefl a h

/-- An element of a list in order is found at its place. -/
theorem find_split [Std.Irrefl lt] (hs : (l₁ ++ a :: l₂).Pairwise lt) : find lt (l₁ ++ a :: l₂) a = some l₁.length := by
  have hbefore : ∀ b ∈ l₁, lt b a := fun b hb => (List.pairwise_append.mp hs).2.2 b hb a List.mem_cons_self
  have hl₁ : l₁.findIdx (fun b => decide ¬lt b a) = l₁.length :=
    List.findIdx_eq_length.mpr fun b hb => by simpa using hbefore b hb
  have hbound : lowerBound lt (l₁ ++ a :: l₂) a = l₁.length := by
    unfold lowerBound
    rw [List.findIdx_append, hl₁, if_neg (Nat.lt_irrefl _), List.findIdx_cons]
    simp [Std.Irrefl.irrefl a]
  unfold find
  rw [hbound, if_pos ⟨a, by simp, Std.Irrefl.irrefl a⟩]

theorem find_mem [Std.Irrefl lt] (hs : l.Pairwise lt) (h : a ∈ l) : ∃ i, find lt l a = some i ∧ l[i]? = some a := by
  obtain ⟨l₁, l₂, rfl⟩ := List.append_of_mem h
  exact ⟨l₁.length, find_split hs, by simp⟩

/-- The erasure of the element found takes out this element and no other. -/
theorem erase_mem [Std.Irrefl lt] (hs : l.Pairwise lt) (h : a ∈ l) :
    ∃ i, find lt l a = some i ∧ (l.eraseIdx i).Pairwise lt ∧ ∀ b, b ∈ l.eraseIdx i ↔ b ∈ l ∧ b ≠ a := by
  obtain ⟨l₁, l₂, rfl⟩ := List.append_of_mem h
  obtain ⟨-, hcons, hbefore⟩ := List.pairwise_append.mp hs
  have herase : (l₁ ++ a :: l₂).eraseIdx l₁.length = l₁ ++ l₂ := by
    rw [List.eraseIdx_append_of_length_le (Nat.le_refl _), Nat.sub_self, List.eraseIdx_cons_zero]
  refine ⟨l₁.length, find_split hs, ?_, fun b => ?_⟩
  · rw [herase]
    exact hs.sublist ((List.sublist_cons_self a l₂).append_left l₁)
  · rw [herase, List.mem_append, List.mem_append, List.mem_cons]
    constructor
    · rintro (hb | hb)
      · exact ⟨Or.inl hb, fun e => Std.Irrefl.irrefl a (e ▸ hbefore b hb a List.mem_cons_self)⟩
      · exact ⟨Or.inr (Or.inr hb), fun e => Std.Irrefl.irrefl a (e ▸ (List.pairwise_cons.mp hcons).1 b hb)⟩
    · rintro ⟨hb | hb | hb, hba⟩
      · exact Or.inl hb
      · exact (hba hb).elim
      · exact Or.inr hb

/-- What the insertion of a new element gives. -/
theorem insert_new [IsTrans α lt] (hs : l.Pairwise lt) (h : ∀ b ∈ l, lt a b ∨ lt b a) :
    (insert lt l a).1.Pairwise lt ∧ (insert lt l a).1.Perm (a :: l) ∧
      (insert lt l a).1[(insert lt l a).2]? = some a := by
  have hnone : find lt l a = none := by
    rcases hf : find lt l a with _ | i
    · rfl
    · obtain ⟨b, hb, hba, hab⟩ := find_eq_some hf
      exact ((h b (List.mem_of_getElem? hb)).elim hab hba).elim
  have hbefore : ∀ b ∈ l.take (lowerBound lt l a), lt b a := by
    intro b hb
    obtain ⟨i, hi, rfl⟩ := List.mem_take_iff_getElem.mp hb
    simpa using List.not_of_lt_findIdx (show i < l.findIdx fun b => ¬lt b a by unfold lowerBound at hi; omega)
  have hbehind : ∀ b ∈ l.drop (lowerBound lt l a), lt a b := by
    intro b hb
    refine (h b (List.mem_of_mem_drop hb)).resolve_right fun hba => ?_
    obtain ⟨i, hi, rfl⟩ := List.mem_drop_iff_getElem.mp hb
    have hlt : lowerBound lt l a < l.length := by omega
    rcases Nat.eq_zero_or_pos i with rfl | hi
    · exact not_lt_lowerBound hlt (by simpa using hba)
    · exact not_lt_lowerBound hlt (IsTrans.trans _ _ _ (List.pairwise_iff_getElem.mp hs _ _ hlt (by omega) (by omega)) hba)
  unfold insert
  rw [hnone]
  refine ⟨?_, ?_, ?_⟩
  · refine List.pairwise_append.mpr ⟨hs.take, List.pairwise_cons.mpr ⟨hbehind, hs.drop⟩, ?_⟩
    intro b hb c hc
    rcases List.mem_cons.mp hc with rfl | hc
    · exact hbefore b hb
    · exact IsTrans.trans _ _ _ (hbefore b hb) (hbehind c hc)
  · refine List.perm_middle.trans ?_
    rw [List.take_append_drop]
  · have hlen : (l.take (lowerBound lt l a)).length = lowerBound lt l a := by
      rw [List.length_take]
      exact Nat.min_eq_left List.findIdx_le_length
    rw [List.getElem?_append_right (Nat.le_of_eq hlen), hlen]
    simp

theorem mem_insert (h : b ∈ (insert lt l a).1) : b = a ∨ b ∈ l := by
  induction l with
  | nil => exact Or.inl (List.mem_singleton.mp h)
  | cons c l ih =>
    rw [insert_cons] at h
    split at h
    · rcases List.mem_cons.mp h with rfl | h
      · exact Or.inr List.mem_cons_self
      · exact (ih h).imp_right (List.mem_cons_of_mem c)
    · split at h
      · exact List.mem_cons.mp h
      · exact Or.inr h

theorem insert_ne_nil : (insert lt l a).1 ≠ [] := by
  cases l with
  | nil => exact List.cons_ne_nil a []
  | cons b l =>
    rw [insert_cons]
    split
    · exact List.cons_ne_nil _ _
    · split <;> exact List.cons_ne_nil _ _

/-- An insertion keeps the order, whether or not there is an equivalent element. -/
theorem insert_sorted [IsTrans α lt] (hs : l.Pairwise lt) : (insert lt l a).1.Pairwise lt := by
  induction l with
  | nil => exact List.pairwise_singleton lt a
  | cons b l ih =>
    obtain ⟨hb, hl⟩ := List.pairwise_cons.mp hs
    rw [insert_cons]
    split
    · rename_i hba
      refine List.pairwise_cons.mpr ⟨fun c hc => ?_, ih hl⟩
      rcases mem_insert hc with rfl | hc
      · exact hba
      · exact hb c hc
    · split
      · rename_i hab
        refine List.pairwise_cons.mpr ⟨fun c hc => ?_, hs⟩
        rcases List.mem_cons.mp hc with rfl | hc
        · exact hab
        · exact IsTrans.trans a b c hab (hb c hc)
      · exact hs

/-- The place of the upper bound parts a list in order into what is not behind `a` and what is. -/
theorem split_upperBound [IsTrans α lt] (hs : l.Pairwise lt) (a : α) :
    l.take (upperBound lt l a) = l.filter (fun b => ¬lt a b) ∧ l.drop (upperBound lt l a) = l.filter (fun b => lt a b) := by
  unfold upperBound
  induction l with
  | nil => exact ⟨rfl, rfl⟩
  | cons b l ih =>
    obtain ⟨hb, hl⟩ := List.pairwise_cons.mp hs
    by_cases hab : lt a b
    · have hall : ∀ c ∈ b :: l, lt a c := by
        intro c hc
        rcases List.mem_cons.mp hc with rfl | hc
        · exact hab
        · exact IsTrans.trans a b c hab (hb c hc)
      have hzero : (b :: l).findIdx (fun c => decide (lt a c)) = 0 := by
        rw [List.findIdx_cons]
        simp [hab]
      rw [hzero, List.take_zero, List.drop_zero]
      refine ⟨(List.filter_eq_nil_iff.mpr fun c hc => ?_).symm, (List.filter_eq_self.mpr fun c hc => ?_).symm⟩
      · simpa using hall c hc
      · simpa using hall c hc
    · obtain ⟨htake, hdrop⟩ := ih hl
      have hsucc : (b :: l).findIdx (fun c => decide (lt a c)) = l.findIdx (fun c => decide (lt a c)) + 1 := by
        rw [List.findIdx_cons]
        simp [hab]
      rw [hsucc, List.take_succ_cons, List.drop_succ_cons, htake, hdrop]
      simp [hab]

/-- A new element is in front when its place is the first. -/
theorem head_insert [Std.Irrefl lt] [IsTrans α lt] (hs : l.Pairwise lt) (h : ∀ b ∈ l, lt a b ∨ lt b a) :
    (insert lt l a).1.head? = some a ↔ (insert lt l a).2 = 0 := by
  obtain ⟨hsorted, hperm, hplace⟩ := insert_new hs h
  have hpos : 0 < (insert lt l a).1.length := by
    rw [hperm.length_eq]
    exact Nat.succ_pos _
  rw [List.head?_eq_getElem?, ← hplace, List.getElem?_inj hpos (nodup_of_sorted hsorted), eq_comm]

end Lib.OrderedSet
