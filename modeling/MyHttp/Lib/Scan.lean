import Mathlib.Data.List.Basic

/-! Scanners driven by a table of states: a byte picks an edge, the actions of the edge are run on a store, and an action
    may stop the scan behind its byte. Which actions are run where does not depend on the store. -/

namespace Lib.Scan

/-- A set of bytes, as ranges with both ends. -/
abbrev CharClass := List (Nat × Nat)

def CharClass.has (k : CharClass) (c : UInt8) : Bool := k.any fun r => r.1 ≤ c.toNat && c.toNat ≤ r.2

structure Edge (α : Type) where
  on : CharClass
  target : Nat
  actions : List α
deriving Repr

def byte (c : Nat) : CharClass := [(c, c)]

/-- A capital letter and its small one. -/
def letter (c : Nat) : CharClass := [(c, c), (c + 32, c + 32)]

def any : CharClass := [(0, 255)]

/-- The edges of each state; the first that fits a byte is taken. -/
abbrev Table (α : Type) := List (Nat × List (Edge α))

variable {α ρ : Type}

def next (t : Table α) (cs : Nat) (c : UInt8) : Option (Edge α) := ((t.lookup cs).getD []).find? (·.on.has c)

/-- State, store and position after a scan. -/
structure Scanned (ρ : Type) where
  cs : Nat
  store : ρ
  pos : Nat
deriving Repr

/-- A scan from position `p`. Without an edge it stops at the byte, in state 0. -/
def exec (t : Table α) (stops : α → Bool) (act : α → Nat → ρ → ρ) (p cs : Nat) (r : ρ) : List UInt8 → Scanned ρ
  | [] => ⟨cs, r, p⟩
  | c :: rest =>
    match next t cs c with
    | none => ⟨0, r, p⟩
    | some e =>
      let r := e.actions.foldl (fun r a => act a p r) r
      if e.actions.any stops then ⟨e.target, r, p + 1⟩ else exec t stops act (p + 1) e.target r rest

variable {t : Table α} {stops : α → Bool} {act : α → Nat → ρ → ρ} {p cs : Nat} {r : ρ} {bytes : List UInt8}

theorem pos_exec_le : (exec t stops act p cs r bytes).pos ≤ p + bytes.length := by
  induction bytes generalizing p cs r with
  | nil => exact Nat.le_refl p
  | cons c rest ih =>
    rw [exec, List.length_cons]
    split
    · exact Nat.le_add_right p _
    · dsimp only
      split
      · exact Nat.add_le_add_left (Nat.le_add_left 1 _) p
      · exact Nat.le_trans ih (by omega)

theorem foldl_keeps {P : ρ → Prop} {as : List α} (keep : ∀ a r, P r → P (act a p r)) (h : P r) :
    P (as.foldl (fun r a => act a p r) r) := by
  induction as generalizing r with
  | nil => exact h
  | cons a as ih => exact ih (keep a r h)

/-- What every action keeps at the positions of the bytes, the scan keeps. -/
theorem exec_keeps {P : ρ → Prop} (keep : ∀ a q r, q < p + bytes.length → P r → P (act a q r)) (h : P r) :
    P (exec t stops act p cs r bytes).store := by
  induction bytes generalizing p cs r with
  | nil => exact h
  | cons c rest ih =>
    have hfold : ∀ as : List α, P (as.foldl (fun r a => act a p r) r) := fun as =>
      foldl_keeps (fun a r => keep a p r (by simp)) h
    rw [exec]
    split
    · exact h
    · dsimp only
      split
      · exact hfold _
      · refine ih (fun a q r hq => keep a q r ?_) (hfold _)
        rw [List.length_cons]
        omega

variable {cs' : Nat} {xs ys : List UInt8}

/-! ### Control -/

/-- The actions of a scan with their positions. -/
def calls (t : Table α) (stops : α → Bool) (p cs : Nat) : List UInt8 → List (Nat × α)
  | [] => []
  | c :: rest =>
    match next t cs c with
    | none => []
    | some e => e.actions.map (p, ·) ++ if e.actions.any stops then [] else calls t stops (p + 1) e.target rest

/-- The state behind the bytes, when the scan runs through them all. -/
def through (t : Table α) (stops : α → Bool) (cs : Nat) : List UInt8 → Option Nat
  | [] => some cs
  | c :: rest =>
    match next t cs c with
    | none => none
    | some e => if e.actions.any stops then none else through t stops e.target rest

/-- The store after some actions. -/
def runCalls (act : α → Nat → ρ → ρ) (r : ρ) (l : List (Nat × α)) : ρ := l.foldl (fun r x => act x.2 x.1 r) r

theorem runCalls_append {l l' : List (Nat × α)} :
    runCalls act r (l ++ l') = runCalls act (runCalls act r l) l' := List.foldl_append ..

theorem runCalls_edge {as : List α} :
    runCalls act r (as.map (p, ·)) = as.foldl (fun r a => act a p r) r := List.foldl_map ..

/-- What each of the actions keeps, all of them keep. -/
theorem runCalls_keeps {P : ρ → Prop} {l : List (Nat × α)} (keep : ∀ x ∈ l, ∀ r, P r → P (act x.2 x.1 r)) (h : P r) :
    P (runCalls act r l) := by
  induction l generalizing r with
  | nil => exact h
  | cons x l ih => exact ih (fun y hy => keep y (List.mem_cons_of_mem _ hy)) (keep x List.mem_cons_self r h)

theorem exec_store : (exec t stops act p cs r bytes).store = runCalls act r (calls t stops p cs bytes) := by
  induction bytes generalizing p cs r with
  | nil => rfl
  | cons c rest ih =>
    cases he : next t cs c with
    | none =>
      simp only [exec, calls, he]
      rfl
    | some e =>
      simp only [exec, calls, he, runCalls_append, runCalls_edge]
      split
      · rfl
      · exact ih

/-- Behind bytes that are run through, the scan goes on as if it began there. -/
theorem exec_append (h : through t stops cs xs = some cs') :
    exec t stops act p cs r (xs ++ ys) =
      exec t stops act (p + xs.length) cs' (exec t stops act p cs r xs).store ys := by
  induction xs generalizing p cs r with
  | nil =>
    cases h
    rfl
  | cons c rest ih =>
    cases he : next t cs c with
    | none => simp [through, he] at h
    | some e =>
      simp only [through, he] at h
      split at h
      · cases h
      · rename_i hs
        simp only [List.cons_append, exec, he, hs, List.length_cons]
        rw [if_neg Bool.false_ne_true, if_neg Bool.false_ne_true, ih h, Nat.add_assoc, Nat.add_comm 1]

theorem calls_append (h : through t stops cs xs = some cs') :
    calls t stops p cs (xs ++ ys) = calls t stops p cs xs ++ calls t stops (p + xs.length) cs' ys := by
  induction xs generalizing p cs with
  | nil =>
    cases h
    rfl
  | cons c rest ih =>
    cases he : next t cs c with
    | none => simp [through, he] at h
    | some e =>
      simp only [through, he] at h
      split at h
      · cases h
      · rename_i hs
        simp only [List.cons_append, calls, he, hs, List.length_cons]
        rw [if_neg Bool.false_ne_true, if_neg Bool.false_ne_true, ih h, List.append_assoc, Nat.add_assoc,
          Nat.add_comm 1]

theorem through_append : through t stops cs (xs ++ ys) = (through t stops cs xs).bind fun cs => through t stops cs ys := by
  induction xs generalizing cs with
  | nil => rfl
  | cons c rest ih =>
    cases he : next t cs c with
    | none => simp [through, he]
    | some e =>
      simp only [List.cons_append, through, he]
      split
      · rfl
      · exact ih

/-- A scan through all the bytes is at their end, in the state behind them. -/
theorem exec_of_through (h : through t stops cs bytes = some cs') :
    (exec t stops act p cs r bytes).cs = cs' ∧ (exec t stops act p cs r bytes).pos = p + bytes.length := by
  have happ : exec t stops act p cs r (bytes ++ []) = _ := exec_append h
  rw [List.append_nil] at happ
  rw [happ]
  exact ⟨rfl, rfl⟩

/-- A scan that gets beyond some bytes has run through them. -/
theorem through_of_pos (h : p + xs.length < (exec t stops act p cs r (xs ++ ys)).pos) :
    ∃ cs', through t stops cs xs = some cs' := by
  induction xs generalizing p cs r with
  | nil => exact ⟨cs, rfl⟩
  | cons c rest ih =>
    cases he : next t cs c with
    | none =>
      simp only [List.cons_append, exec, he, List.length_cons] at h
      omega
    | some e =>
      simp only [List.cons_append, exec, he, List.length_cons] at h
      simp only [through, he]
      split at h
      · dsimp only at h
        omega
      · rename_i hs
        simp only [hs]
        refine ih (p := p + 1) (r := e.actions.foldl (fun r a => act a p r) r) ?_
        omega

/-- Positions count from where the scan begins. -/
theorem calls_shift {b : Nat} :
    calls t stops (p + b) cs bytes = (calls t stops p cs bytes).map fun x => (x.1 + b, x.2) := by
  induction bytes generalizing p cs with
  | nil => rfl
  | cons c rest ih =>
    cases he : next t cs c with
    | none => simp [calls, he]
    | some e =>
      simp only [calls, he, List.map_append, List.map_map]
      congr 1
      split
      · rfl
      · rw [Nat.add_right_comm, ih]

theorem not_stops_of_through (h : through t stops cs bytes = some cs') {x : Nat × α}
    (hx : x ∈ calls t stops p cs bytes) : stops x.2 = false := by
  induction bytes generalizing p cs with
  | nil => cases hx
  | cons c rest ih =>
    cases he : next t cs c with
    | none => simp [through, he] at h
    | some e =>
      simp only [through, he] at h
      split at h
      · cases h
      · rename_i hs
        simp only [calls, he, hs, List.mem_append, List.mem_map] at hx
        rcases hx with ⟨a, ha, rfl⟩ | hx
        · simp only [List.any_eq_true, not_exists, not_and, Bool.not_eq_true] at hs
          exact hs a ha
        · exact ih h hx

theorem forall_byte {P : UInt8 → Prop} (h : ∀ n < 256, P (UInt8.ofNat n)) (c : UInt8) : P c := by
  rw [← UInt8.ofNat_toNat (x := c)]
  exact h _ c.toNat_lt

theorem mem_of_next {c : UInt8} {e : Edge α} (h : next t cs c = some e) :
    ∃ es, (cs, es) ∈ t ∧ e ∈ es ∧ e.on.has c = true := by
  unfold next at h
  cases hrow : t.lookup cs with
  | none => simp [hrow] at h
  | some es =>
    obtain ⟨l₁, l₂, rfl, -⟩ := List.lookup_eq_some_iff.mp hrow
    rw [hrow] at h
    exact ⟨es, by simp, List.mem_of_find?_eq_some h, (List.find?_eq_some_iff_append.mp h).1⟩

theorem calls_pos {x : Nat × α} (h : x ∈ calls t stops p cs bytes) : p ≤ x.1 ∧ x.1 < p + bytes.length := by
  induction bytes generalizing p cs with
  | nil => cases h
  | cons c rest ih =>
    cases he : next t cs c with
    | none => simp [calls, he] at h
    | some e =>
      simp only [calls, he, List.mem_append, List.mem_map] at h
      rw [List.length_cons]
      rcases h with ⟨a, -, rfl⟩ | h
      · exact ⟨Nat.le_refl p, by simp⟩
      · split at h
        · cases h
        · obtain ⟨hle, hlt⟩ := ih h
          exact ⟨by omega, by omega⟩

/-- A scan ends behind a byte whose edge stops it, whatever comes then. -/
theorem exec_stop {c : UInt8} {e : Edge α} (h : through t stops cs xs = some cs') (he : next t cs' c = some e)
    (hs : e.actions.any stops = true) :
    (exec t stops act p cs r (xs ++ c :: ys)).cs = e.target ∧
      (exec t stops act p cs r (xs ++ c :: ys)).pos = p + xs.length + 1 := by
  rw [exec_append h]
  simp [exec, he, hs]

theorem calls_stop {c : UInt8} {e : Edge α} (h : through t stops cs xs = some cs') (he : next t cs' c = some e)
    (hs : e.actions.any stops = true) :
    calls t stops p cs (xs ++ c :: ys) = calls t stops p cs xs ++ e.actions.map (p + xs.length, ·) := by
  rw [calls_append h]
  simp [calls, he, hs]

end Lib.Scan
