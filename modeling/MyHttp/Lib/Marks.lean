import MyHttp.Lib.Scan

/-! Positions that a scanner remembers in registers, and what is left of them when it is given its bytes in pieces and
    forgets the registers between the pieces. -/

namespace Lib.Scan

inductive Reg where
  | mark
  | fieldStart
  /-- the end of a field: its length from `fieldStart` -/
  | field
  | query
deriving DecidableEq, Repr

structure Marks where
  mark : Nat
  fieldStart : Nat
  /-- where the field of `colon` starts -/
  nameStart : Nat
  colon : Nat
  query : Nat
deriving DecidableEq, Repr

namespace Marks

def zero : Marks := ⟨0, 0, 0, 0, 0⟩

def put (m : Marks) (p : Nat) : Reg → Marks
  | .mark => { m with mark := p }
  | .fieldStart => { m with fieldStart := p }
  | .field => { m with nameStart := m.fieldStart, colon := p }
  | .query => { m with query := p }

/-- No position is beyond `b`. -/
structure Below (m : Marks) (b : Nat) : Prop where
  mark : m.mark ≤ b
  fieldStart : m.fieldStart ≤ b
  nameStart : m.nameStart ≤ b
  colon : m.colon ≤ b
  query : m.query ≤ b

theorem below_zero (b : Nat) : zero.Below b := ⟨b.zero_le, b.zero_le, b.zero_le, b.zero_le, b.zero_le⟩

theorem Below.mono {m : Marks} {b b' : Nat} (h : m.Below b) (hle : b ≤ b') : m.Below b' :=
  ⟨Nat.le_trans h.mark hle, Nat.le_trans h.fieldStart hle, Nat.le_trans h.nameStart hle, Nat.le_trans h.colon hle,
    Nat.le_trans h.query hle⟩

theorem Below.put {m : Marks} {b p : Nat} (h : m.Below b) (hp : p ≤ b) (r : Reg) : (m.put p r).Below b := by
  cases r with
  | mark => exact { h with mark := hp }
  | fieldStart => exact { h with fieldStart := hp }
  | field => exact { h with nameStart := h.fieldStart, colon := hp }
  | query => exact { h with query := hp }

/-- The registers of a scanner that was given the bytes from `b` on, against the positions. -/
structure Cut (m : Marks) (b mark fieldStart fieldLen : Nat) : Prop where
  mark : mark = m.mark - b
  fieldStart : fieldStart = m.fieldStart - b
  fieldLen : fieldLen = m.colon - max m.nameStart b

/-- A new piece begins with the registers cleared. -/
theorem Below.cut {m : Marks} {b : Nat} (h : m.Below b) : m.Cut b 0 0 0 :=
  ⟨(Nat.sub_eq_zero_of_le h.mark).symm, (Nat.sub_eq_zero_of_le h.fieldStart).symm,
    (Nat.sub_eq_zero_of_le (Nat.le_trans h.colon (Nat.le_max_right ..))).symm⟩

variable {m : Marks} {b p mark fieldStart fieldLen : Nat}

theorem Cut.put_mark (h : m.Cut b mark fieldStart fieldLen) : (m.put p .mark).Cut b (p - b) fieldStart fieldLen :=
  { h with mark := rfl }

theorem Cut.put_fieldStart (h : m.Cut b mark fieldStart fieldLen) : (m.put p .fieldStart).Cut b mark (p - b) fieldLen :=
  { h with fieldStart := rfl }

theorem Cut.put_field (h : m.Cut b mark fieldStart fieldLen) :
    (m.put p .field).Cut b mark fieldStart (p - b - fieldStart) := by
  refine { h with fieldLen := ?_ }
  simp only [put, h.fieldStart]
  omega

theorem Cut.put_query (h : m.Cut b mark fieldStart fieldLen) :
    (m.put p .query).Cut b mark fieldStart fieldLen := ⟨h.mark, h.fieldStart, h.fieldLen⟩

end Marks

variable {α ρ σ : Type} {reg : α → Option Reg} {m m₀ : Marks} {l l' : List (Nat × α)}

/-- The positions after an action. -/
def Marks.act (reg : α → Option Reg) (a : α) (p : Nat) (m : Marks) : Marks :=
  match reg a with
  | some r => m.put p r
  | none => m

/-- The actions with the positions that are remembered before each. -/
def seen (reg : α → Option Reg) (m : Marks) : List (Nat × α) → List (Marks × Nat × α)
  | [] => []
  | (p, a) :: l => (m, p, a) :: seen reg (m.act reg a p) l

theorem mem_of_seen {x : Marks × Nat × α} (h : x ∈ seen reg m l) : x.2 ∈ l := by
  induction l generalizing m with
  | nil => cases h
  | cons y l ih =>
    rcases List.mem_cons.mp h with rfl | h
    · exact List.mem_cons_self
    · exact List.mem_cons_of_mem _ (ih h)

theorem Marks.Below.act {a : α} {b p : Nat} (h : m.Below b) (hp : p ≤ b) : (m.act reg a p).Below b := by
  unfold Marks.act
  split
  · exact h.put hp _
  · exact h

theorem Marks.Below.runCalls {b : Nat} (h : m.Below b) (hl : ∀ x ∈ l, x.1 ≤ b) : (runCalls (Marks.act reg) m l).Below b := by
  induction l generalizing m with
  | nil => exact h
  | cons x l ih =>
    exact ih (h.act (hl x List.mem_cons_self)) fun y hy => hl y (List.mem_cons_of_mem _ hy)

theorem seen_append : seen reg m (l ++ l') = seen reg m l ++ seen reg (runCalls (Marks.act reg) m l) l' := by
  induction l generalizing m with
  | nil => rfl
  | cons x l ih => exact congrArg _ ih

/-- A piece is scanned with positions of its own. -/
theorem exec_store_piece {t : Table α} {stops : α → Bool} {f : α → Nat → ρ → ρ} {r : ρ} {cs b : Nat} {bytes : List UInt8} :
    (exec t stops f 0 cs r bytes).store = runCalls (fun a p r => f a (p - b) r) r (calls t stops b cs bytes) := by
  rw [exec_store, ← Nat.zero_add b, calls_shift, runCalls, runCalls, List.foldl_map]
  simp

/-- A relation between the positions and two stores that every action keeps is kept by all of them. -/
theorem runCalls_sim {R : Marks → ρ → σ → Prop} {f : α → Nat → ρ → ρ} {g : α → Nat → σ → σ} {r : ρ} {s : σ}
    (keep : ∀ m p a r s, (m, p, a) ∈ seen reg m₀ l → R m r s → R (m.act reg a p) (f a p r) (g a p s)) (h : R m₀ r s) :
    R (runCalls (Marks.act reg) m₀ l) (runCalls f r l) (runCalls g s l) := by
  induction l generalizing m₀ r s with
  | nil => exact h
  | cons x l ih =>
    exact ih (fun m p a r s hm => keep m p a r s (List.mem_cons_of_mem _ hm)) (keep _ _ _ _ _ List.mem_cons_self h)

end Lib.Scan
