import MyHttp.Lib.Segments

/-! Scans that read a value: the stretches of a text write the parts of what the store holds, wherever the text stands in
    the bytes that the actions look at. -/

namespace Lib.Scan

variable {α ρ δ : Type} {t : Table α} {stops : α → Bool} {act : List UInt8 → α → Nat → ρ → ρ} {holds : ρ → δ → Prop}
  {B xs ys : List UInt8} {q q' q'' p : Nat} {d d' d'' : δ} {l l' : List (Nat × α)}

/-- Actions on the bytes `B` that turn a store that holds `d` into one that holds `d'`. -/
def Writes (act : List UInt8 → α → Nat → ρ → ρ) (holds : ρ → δ → Prop) (B : List UInt8) (l : List (Nat × α)) (d d' : δ) :
    Prop :=
  ∀ r, holds r d → holds (runCalls (act B) r l) d'

theorem Writes.nil : Writes act holds B [] d d := fun _ hr => hr

theorem Writes.append (h : Writes act holds B l d d') (h' : Writes act holds B l' d' d'') :
    Writes act holds B (l ++ l') d d'' := by
  intro r hr
  rw [runCalls_append]
  exact h' _ (h r hr)

/-- Bytes that the scan runs through, wherever they stand, and what they make of the value that the store holds. -/
def Reads (t : Table α) (stops : α → Bool) (act : List UInt8 → α → Nat → ρ → ρ) (holds : ρ → δ → Prop) (xs : List UInt8)
    (q q' : Nat) (d d' : δ) : Prop :=
  ∃ l, Segment t stops xs q q' l ∧ ∀ u v, Writes act holds (u ++ xs ++ v) (shift u.length l) d d'

theorem Reads.nil : Reads t stops act holds [] q q d d := ⟨[], .nil, fun _ _ => .nil⟩

theorem Reads.append (h : Reads t stops act holds xs q q' d d') (h' : Reads t stops act holds ys q' q'' d' d'') :
    Reads t stops act holds (xs ++ ys) q q'' d d'' := by
  obtain ⟨l, hl, hwrites⟩ := h
  obtain ⟨l', hl', hwrites'⟩ := h'
  refine ⟨_, hl.append hl', fun u v => ?_⟩
  have hfirst := hwrites u (ys ++ v)
  have hsecond := hwrites' (u ++ xs) v
  rw [shift_append, shift_shift, Nat.add_comm xs.length, ← List.length_append]
  simp only [List.append_assoc] at hfirst hsecond ⊢
  exact hfirst.append hsecond

/-- A stretch and a byte that stops the scan: what stands behind them is not looked at. -/
theorem Reads.stop {c : UInt8} {as : List α} (h : Reads t stops act holds xs q q' d d')
    (hedge : edge t q' c = some (q'', as)) (hstops : as.any stops = true)
    (hlast : ∀ B p, Writes act holds B (as.map (p, ·)) d' d'') {r : ρ} (hr : holds r d) (ys : List UInt8) :
    holds (exec t stops (act (xs ++ c :: ys)) 0 q r (xs ++ c :: ys)).store d'' ∧
      (exec t stops (act (xs ++ c :: ys)) 0 q r (xs ++ c :: ys)).cs = q'' ∧
      (exec t stops (act (xs ++ c :: ys)) 0 q r (xs ++ c :: ys)).pos = xs.length + 1 := by
  obtain ⟨l, hl, hwrites⟩ := h
  obtain ⟨e, hnext, heq⟩ := Option.map_eq_some_iff.mp hedge
  obtain ⟨rfl, rfl⟩ := Prod.mk.inj heq
  have hstopped : (exec t stops (act (xs ++ c :: ys)) 0 q r (xs ++ c :: ys)).cs = e.target ∧
      (exec t stops (act (xs ++ c :: ys)) 0 q r (xs ++ c :: ys)).pos = 0 + xs.length + 1 := exec_stop hl.through hnext hstops
  obtain ⟨hcs, hpos⟩ := hstopped
  refine ⟨?_, hcs, by rw [hpos, Nat.zero_add]⟩
  rw [exec_store, calls_stop hl.through hnext hstops, hl.calls, runCalls_append]
  exact hlast _ _ _ (hwrites [] (c :: ys) r hr)

/-- A part of a text, wherever the text stands. -/
theorem drop_take_of_eq {u v w a b : List UInt8} (h : xs = a ++ (w ++ b)) (hp : p = a.length + u.length) :
    ((u ++ xs ++ v).drop p).take w.length = w := by
  subst h hp
  have hdrop : u ++ (a ++ (w ++ b)) ++ v = (u ++ a) ++ (w ++ (b ++ v)) := by simp only [List.append_assoc]
  rw [hdrop, Nat.add_comm, ← List.length_append, List.drop_left, List.take_left]

end Lib.Scan
