import MyHttp.Lib.Marks

/-! A scanner that is given its bytes in pieces: where it stops, which actions it runs, and what holds of the positions it
    remembers, from what every edge keeps. -/

namespace Lib.Scan

variable {α ρ : Type} {t : Table α} {stops : α → Bool} {act : α → Nat → ρ → ρ} {reg : α → Option Reg} {m : Marks}
  {p cs cs' final : Nat} {r : ρ} {bytes xs ys zs : List UInt8}

/-! ### The end of a scan -/

/-- From a state, a scan of the bytes stops behind the last of them, in a final state. -/
def Accepts (t : Table α) (stops : α → Bool) (cs : Nat) (bytes : List UInt8) (final : Nat) : Prop :=
  ∃ init c cs' e, bytes = init ++ [c] ∧ through t stops cs init = some cs' ∧ next t cs' c = some e ∧
    e.actions.any stops = true ∧ e.target = final

theorem accepts_of_exec (hne : bytes ≠ []) (hpos : (exec t stops act p cs r bytes).pos = p + bytes.length)
    (hfinal : ∀ cs' c e, next t cs' c = some e → e.target = (exec t stops act p cs r bytes).cs →
      e.actions.any stops = true) : Accepts t stops cs bytes (exec t stops act p cs r bytes).cs := by
  obtain ⟨init, c, rfl⟩ := List.eq_nil_or_concat bytes |>.resolve_left hne
  rw [List.concat_eq_append] at *
  have hlt : p + init.length < (exec t stops act p cs r (init ++ [c])).pos := by
    rw [hpos, List.length_append]
    exact Nat.add_lt_add_left (Nat.lt_succ_self _) p
  obtain ⟨cs', hcs'⟩ := through_of_pos hlt
  have happ : exec t stops act p cs r (init ++ [c]) = _ := exec_append hcs'
  cases he : next t cs' c with
  | none =>
    rw [happ] at hlt
    simp [exec, he] at hlt
  | some e =>
    have htarget : (exec t stops act p cs r (init ++ [c])).cs = e.target := by
      rw [happ]
      simp only [exec, he]
      split <;> rfl
    rw [htarget]
    exact ⟨init, c, cs', e, rfl, hcs', he, hfinal _ _ _ he htarget.symm, rfl⟩

/-- Before its last byte the scan runs through. -/
theorem Accepts.through (h : Accepts t stops cs (xs ++ ys) final) (hy : ys ≠ []) :
    ∃ cs', through t stops cs xs = some cs' := by
  obtain ⟨init, c, cs₁, e, heq, hcs₁, -⟩ := h
  obtain ⟨ys, d, rfl⟩ := List.eq_nil_or_concat ys |>.resolve_left hy
  rw [List.concat_eq_append, ← List.append_assoc] at heq
  obtain ⟨rfl, -⟩ := List.append_inj' heq rfl
  rw [through_append] at hcs₁
  obtain ⟨cs', hcs', -⟩ := Option.bind_eq_some_iff.mp hcs₁
  exact ⟨cs', hcs'⟩

/-- What is left behind some of the bytes is accepted from the state behind them. -/
theorem Accepts.rest (h : Accepts t stops cs (xs ++ ys) final) (hy : ys ≠ []) (hx : Scan.through t stops cs xs = some cs') :
    Accepts t stops cs' ys final := by
  obtain ⟨init, c, cs₁, e, heq, hcs₁, he⟩ := h
  obtain ⟨ys, d, rfl⟩ := List.eq_nil_or_concat ys |>.resolve_left hy
  rw [List.concat_eq_append, ← List.append_assoc] at heq
  obtain ⟨rfl, hd⟩ := List.append_inj' heq rfl
  obtain rfl := List.singleton_inj.mp hd
  rw [through_append, hx] at hcs₁
  exact ⟨ys, d, cs₁, e, List.concat_eq_append, hcs₁, he⟩

/-- The scan stops behind the accepted bytes, whatever comes then. -/
theorem Accepts.exec_append (h : Accepts t stops cs xs final) :
    (exec t stops act p cs r (xs ++ ys)).cs = final ∧ (exec t stops act p cs r (xs ++ ys)).pos = p + xs.length := by
  obtain ⟨init, c, cs₁, e, rfl, hcs₁, he, hstop, rfl⟩ := h
  rw [List.append_assoc, List.singleton_append]
  obtain ⟨hcs, hpos⟩ : (exec t stops act p cs r (init ++ c :: ys)).cs = e.target ∧
      (exec t stops act p cs r (init ++ c :: ys)).pos = p + init.length + 1 := exec_stop hcs₁ he hstop
  refine ⟨hcs, ?_⟩
  rw [hpos, List.length_append]
  rfl

theorem Accepts.calls_append (h : Accepts t stops cs xs final) : calls t stops p cs (xs ++ ys) = calls t stops p cs xs := by
  obtain ⟨init, c, cs₁, e, rfl, hcs₁, he, hstop, -⟩ := h
  rw [List.append_assoc, List.singleton_append, calls_stop hcs₁ he hstop, calls_stop hcs₁ he hstop]

theorem Accepts.cons {c : UInt8} {e : Edge α} (he : next t cs c = some e) (hs : e.actions.any stops = false)
    (h : Accepts t stops e.target xs final) : Accepts t stops cs (c :: xs) final := by
  obtain ⟨init, d, cs₁, e₁, rfl, hcs₁, hlast⟩ := h
  refine ⟨c :: init, d, cs₁, e₁, rfl, ?_, hlast⟩
  simp only [Scan.through, he, hs, Bool.false_eq_true, if_false]
  exact hcs₁

/-- A scan runs through the bytes, or into an error, or it is stopped behind some of them. -/
theorem exec_cases (t : Table α) (stops : α → Bool) (act : α → Nat → ρ → ρ) (p cs : Nat) (r : ρ) (bytes : List UInt8) :
    (∃ cs', Scan.through t stops cs bytes = some cs') ∨ (exec t stops act p cs r bytes).cs = 0 ∨
      ∃ xs ys, bytes = xs ++ ys ∧ Accepts t stops cs xs (exec t stops act p cs r bytes).cs := by
  induction bytes generalizing p cs r with
  | nil => exact Or.inl ⟨cs, rfl⟩
  | cons c rest ih =>
    cases he : next t cs c with
    | none =>
      right; left
      simp only [exec, he]
    | some e =>
      cases hs : e.actions.any stops with
      | true =>
        right; right
        refine ⟨[c], rest, rfl, [], c, cs, e, rfl, rfl, he, hs, ?_⟩
        simp only [exec, he, hs, if_true]
      | false =>
        simp only [Scan.through, exec, he, hs, Bool.false_eq_true, if_false]
        rcases ih (p + 1) e.target (e.actions.foldl (fun r a => act a p r) r) with h | h | ⟨xs, ys, rfl, h⟩
        · exact Or.inl h
        · exact Or.inr (Or.inl h)
        · exact Or.inr (Or.inr ⟨c :: xs, ys, rfl, h.cons he hs⟩)

/-- What the edges that do not stop the scan lead to. -/
theorem through_keeps {P : Nat → Prop}
    (keep : ∀ cs c e, next t cs c = some e → e.actions.any stops = false → P e.target)
    (h : through t stops cs bytes = some cs') (hcs : P cs) : P cs' := by
  induction bytes generalizing cs with
  | nil =>
    cases h
    exact hcs
  | cons c rest ih =>
    cases he : next t cs c with
    | none => simp [Scan.through, he] at h
    | some e =>
      simp only [Scan.through, he] at h
      split at h
      · cases h
      · rename_i hs
        exact ih h (keep _ _ _ he (Bool.eq_false_iff.mpr hs))

/-- The bytes of a buffer at their place in the message. -/
theorem text_piece {done x y z : List UInt8} {s : Nat} (hp : p ≤ done.length + x.length) (hs : done.length ≤ s) :
    ((x ++ y).drop (s - done.length)).take (p - s) = ((done ++ x ++ z).drop s).take (p - s) := by
  rcases Nat.le_total p s with hle | hle
  · rw [Nat.sub_eq_zero_of_le hle, List.take_zero, List.take_zero]
  · have hleft : s - done.length ≤ x.length := by omega
    have hlen : p - s ≤ (x.drop (s - done.length)).length := by
      rw [List.length_drop]
      omega
    have hdone : (done ++ (x ++ z)).drop s = (x ++ z).drop (s - done.length) := by
      rw [List.drop_append, List.drop_eq_nil_of_le hs, List.nil_append]
    rw [List.append_assoc, hdone, List.drop_append_of_le_length hleft, List.drop_append_of_le_length hleft, List.take_append_of_le_length hlen, List.take_append_of_le_length hlen]

/-! ### The positions along a scan -/

variable {P : Nat → Nat → Marks → Prop}

/-- What every edge keeps of position, state and remembered positions holds behind the bytes. -/
theorem through_marks
    (keep : ∀ p cs m c e, next t cs c = some e → P p cs m →
      P (p + 1) e.target (runCalls (Marks.act reg) m (e.actions.map (p, ·))))
    (h : P p cs m) (hthrough : through t stops cs bytes = some cs') :
    P (p + bytes.length) cs' (runCalls (Marks.act reg) m (calls t stops p cs bytes)) := by
  induction bytes generalizing p cs m with
  | nil =>
    cases hthrough
    exact h
  | cons c rest ih =>
    cases he : next t cs c with
    | none => simp [Scan.through, he] at hthrough
    | some e =>
      simp only [Scan.through, he] at hthrough
      split at hthrough
      · cases hthrough
      · rename_i hs
        have hrest := ih (keep _ _ _ _ _ he h) hthrough
        simp only [calls, he, hs, Bool.false_eq_true, if_false, runCalls_append]
        rw [List.length_cons, ← Nat.add_assoc, Nat.add_right_comm]
        exact hrest

/-- An action that is run stands on an edge from a state where that holds. -/
theorem mem_seen_calls
    (keep : ∀ p cs m c e, next t cs c = some e → P p cs m →
      P (p + 1) e.target (runCalls (Marks.act reg) m (e.actions.map (p, ·))))
    (h : P p cs m) {x : Marks × Nat × α} (hx : x ∈ seen reg m (calls t stops p cs bytes)) :
    ∃ cs' m' c e, next t cs' c = some e ∧ P x.2.1 cs' m' ∧ bytes[x.2.1 - p]? = some c ∧
      x ∈ seen reg m' (e.actions.map (x.2.1, ·)) := by
  induction bytes generalizing p cs m with
  | nil => cases hx
  | cons c rest ih =>
    cases he : next t cs c with
    | none =>
      simp only [calls, he] at hx
      cases hx
    | some e =>
      simp only [calls, he, seen_append, List.mem_append] at hx
      rcases hx with hx | hx
      · obtain ⟨a, -, ha⟩ := List.mem_map.mp (mem_of_seen hx)
        obtain rfl : p = x.2.1 := congrArg Prod.fst ha
        exact ⟨cs, m, c, e, he, h, by simp, hx⟩
      · split at hx
        · cases hx
        · obtain ⟨cs', m', c', e', he', hP, hc', hx'⟩ := ih (keep _ _ _ _ _ he h) hx
          have hle := (calls_pos (mem_of_seen hx)).1
          refine ⟨cs', m', c', e', he', hP, ?_, hx'⟩
          rw [← hc', show x.2.1 - p = (x.2.1 - (p + 1)) + 1 by omega, List.getElem?_cons_succ]

end Lib.Scan
