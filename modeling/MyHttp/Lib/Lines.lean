import Mathlib.Data.List.Basic

/-! Texts of lines that end in CR and LF: where the lines end is determined by the bytes. -/

namespace Lib.Lines

def lineEnd : List UInt8 := [13, 10]

def IsLine (l : List UInt8) : Prop := 13 ∉ l ∧ 10 ∉ l

instance (l : List UInt8) : Decidable (IsLine l) := inferInstanceAs (Decidable (_ ∧ _))

/-- Each line with its end. -/
def unlines (ls : List (List UInt8)) : List UInt8 := ls.flatMap (· ++ lineEnd)

variable {a b x y : List UInt8} {ls ms : List (List UInt8)}

theorem isLine_append : IsLine (a ++ b) ↔ IsLine a ∧ IsLine b := by
  simp only [IsLine, List.mem_append, not_or]
  exact and_and_and_comm

theorem isLine_nil : IsLine [] := ⟨List.not_mem_nil, List.not_mem_nil⟩

theorem unlines_cons (l : List UInt8) (ls : List (List UInt8)) : unlines (l :: ls) = l ++ lineEnd ++ unlines ls := rfl

theorem unlines_append (ls ms : List (List UInt8)) : unlines (ls ++ ms) = unlines ls ++ unlines ms :=
  List.flatMap_append

/-- A line ends at the first CR. -/
theorem line_unique (ha : IsLine a) (hb : IsLine b) (h : a ++ lineEnd ++ x = b ++ lineEnd ++ y) : a = b ∧ x = y := by
  simp only [lineEnd, List.append_assoc, List.cons_append, List.nil_append] at h
  rw [List.append_eq_append_iff] at h
  rcases h with ⟨m, hm, hx⟩ | ⟨m, hm, hy⟩
  · cases m with
    | nil =>
      simp only [List.nil_append, List.cons.injEq, true_and] at hx
      exact ⟨(hm.trans (List.append_nil a)).symm, hx⟩
    | cons c m =>
      obtain rfl := (List.cons.inj hx).1
      exact absurd (hm ▸ List.mem_append_right a List.mem_cons_self) hb.1
  · cases m with
    | nil =>
      simp only [List.nil_append, List.cons.injEq, true_and] at hy
      exact ⟨hm.trans (List.append_nil b), hy.symm⟩
    | cons c m =>
      obtain rfl := (List.cons.inj hy).1
      exact absurd (hm ▸ List.mem_append_right b List.mem_cons_self) ha.1

theorem line_ne_lineEnd (ha : IsLine a) (hne : a ≠ []) : a ++ lineEnd ++ x ≠ lineEnd ++ y := by
  intro h
  exact hne (line_unique (b := []) ha isLine_nil h).1

/-- Up to the blank line, a text is that of one list of lines. -/
theorem unlines_unique (hls : ∀ l ∈ ls, IsLine l ∧ l ≠ []) (hms : ∀ l ∈ ms, IsLine l ∧ l ≠ [])
    (h : unlines ls ++ (lineEnd ++ x) = unlines ms ++ (lineEnd ++ y)) : ls = ms ∧ x = y := by
  induction ls generalizing ms with
  | nil =>
    cases ms with
    | nil => exact ⟨rfl, List.append_cancel_left h⟩
    | cons m ms =>
      obtain ⟨hm, hne⟩ := hms m List.mem_cons_self
      rw [unlines_cons, List.append_assoc] at h
      exact absurd h.symm (line_ne_lineEnd hm hne)
  | cons l ls ih =>
    obtain ⟨hl, hlne⟩ := hls l List.mem_cons_self
    cases ms with
    | nil =>
      rw [unlines_cons, List.append_assoc] at h
      exact absurd h (line_ne_lineEnd hl hlne)
    | cons m ms =>
      obtain ⟨hm, -⟩ := hms m List.mem_cons_self
      rw [unlines_cons, unlines_cons, List.append_assoc (l ++ lineEnd), List.append_assoc (m ++ lineEnd)] at h
      obtain ⟨rfl, hrest⟩ := line_unique hl hm h
      obtain ⟨rfl, rfl⟩ := ih (fun k hk => hls k (List.mem_cons_of_mem l hk))
        (fun k hk => hms k (List.mem_cons_of_mem l hk)) hrest
      exact ⟨rfl, rfl⟩

end Lib.Lines
