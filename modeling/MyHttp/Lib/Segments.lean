import MyHttp.Lib.Scan

/-! Stretches of a scan with the actions they run, put together from bytes and loops. Positions count from the start of
    the stretch. -/

namespace Lib.Scan

variable {α ρ : Type} {t : Table α} {stops : α → Bool} {cs cs' cs'' : Nat} {xs ys : List UInt8} {l l' : List (Nat × α)}

/-- Where an edge leads and what it runs. -/
def edge (t : Table α) (cs : Nat) (c : UInt8) : Option (Nat × List α) := (next t cs c).map fun e => (e.target, e.actions)

def shift (k : Nat) (l : List (Nat × α)) : List (Nat × α) := l.map fun x => (x.1 + k, x.2)

/-- The scan runs through `xs` from one state to another, with the actions `l`. -/
structure Segment (t : Table α) (stops : α → Bool) (xs : List UInt8) (cs cs' : Nat) (l : List (Nat × α)) : Prop where
  through : through t stops cs xs = some cs'
  calls : ∀ p, calls t stops p cs xs = shift p l

theorem shift_append (k : Nat) (l l' : List (Nat × α)) : shift k (l ++ l') = shift k l ++ shift k l' := List.map_append

theorem shift_shift (j k : Nat) (l : List (Nat × α)) : shift j (shift k l) = shift (k + j) l := by
  simp only [shift, List.map_map, Function.comp_def, Nat.add_assoc]

theorem Segment.nil : Segment t stops [] cs cs [] := ⟨rfl, fun _ => rfl⟩

/-- A stretch that is known from the first position on. -/
theorem Segment.of_calls (h : Scan.through t stops cs xs = some cs') (h' : Scan.calls t stops 0 cs xs = l) :
    Segment t stops xs cs cs' l := by
  refine ⟨h, fun p => ?_⟩
  rw [← h', ← Nat.zero_add p, calls_shift]
  simp only [shift, Nat.zero_add]

theorem Segment.append (h : Segment t stops xs cs cs' l) (h' : Segment t stops ys cs' cs'' l') :
    Segment t stops (xs ++ ys) cs cs'' (l ++ shift xs.length l') where
  through := by rw [through_append, h.through, Option.bind_some, h'.through]
  calls p := by
    rw [calls_append h.through, h.calls, h'.calls, shift_append, shift_shift, Nat.add_comm p]

theorem Segment.byte {c : UInt8} {as : List α} (h : edge t cs c = some (cs', as)) (hs : as.any stops = false) :
    Segment t stops [c] cs cs' (as.map (0, ·)) := by
  obtain ⟨e, he, heq⟩ := Option.map_eq_some_iff.mp h
  obtain ⟨rfl, rfl⟩ := Prod.mk.inj heq
  constructor
  · simp [Scan.through, he, hs]
  · intro p
    simp [Scan.calls, he, hs, shift]

/-- One byte in front of a stretch. -/
theorem Segment.cons {c : UInt8} {as : List α} (h : edge t cs c = some (cs', as)) (hs : as.any stops = false)
    (h' : Segment t stops ys cs' cs'' l) : Segment t stops (c :: ys) cs cs'' (as.map (0, ·) ++ shift 1 l) :=
  (Segment.byte h hs).append h'

/-- A byte that runs nothing. -/
theorem Segment.skip {c : UInt8} (h : edge t cs c = some (cs', [])) (h' : Segment t stops ys cs' cs'' []) :
    Segment t stops (c :: ys) cs cs'' [] := Segment.cons h rfl h'

theorem Segment.loop (h : ∀ c ∈ xs, edge t cs c = some (cs, [])) : Segment t stops xs cs cs [] := by
  induction xs with
  | nil => exact .nil
  | cons c xs ih =>
    exact .skip (h c List.mem_cons_self) (ih fun d hd => h d (List.mem_cons_of_mem c hd))

/-! ### Bytes that are not run through -/

/-- The scan comes to a byte that it has no edge for. -/
def Blocked (t : Table α) (stops : α → Bool) (cs : Nat) (xs : List UInt8) : Prop :=
  ∃ ys c zs cs', xs = ys ++ c :: zs ∧ through t stops cs ys = some cs' ∧ next t cs' c = none

theorem Blocked.append (h : Blocked t stops cs xs) (ys : List UInt8) : Blocked t stops cs (xs ++ ys) := by
  obtain ⟨front, c, back, cs', rfl, hthrough, hnext⟩ := h
  exact ⟨front, c, back ++ ys, cs', by simp, hthrough, hnext⟩

theorem Segment.blocked (h : Segment t stops xs cs cs' l) (hb : Blocked t stops cs' ys) : Blocked t stops cs (xs ++ ys) := by
  obtain ⟨front, c, back, cs'', rfl, hthrough, hnext⟩ := hb
  refine ⟨xs ++ front, c, back, cs'', by simp, ?_, hnext⟩
  rw [through_append, h.through, Option.bind_some, hthrough]

/-- It then stops in the error state. -/
theorem Blocked.exec {act : α → Nat → ρ → ρ} {p : Nat} {r : ρ} (h : Blocked t stops cs xs) :
    (exec t stops act p cs r xs).cs = 0 := by
  obtain ⟨front, c, back, cs', rfl, hthrough, hnext⟩ := h
  rw [exec_append hthrough]
  simp [Scan.exec, hnext]

end Lib.Scan
