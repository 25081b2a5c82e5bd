import MyHttp.Lib.Segments

/-! Regions of a table in which the scan runs no actions, against a machine that says what is read there. Several states
    of the machine may be one state of the table. What a region reads may be the work of two machines side by side. -/

namespace Lib.Scan

universe u v

variable {α : Type} {σ : Type u} {τ : Type v} {t : Table α} {stops : α → Bool} {c d : UInt8} {w : List UInt8}

/-! ### Bytes that a table does not tell apart -/

/-- The table asks for bytes of these classes only. -/
def Asks (t : Table α) (ks : List CharClass) : Prop := ∀ row ∈ t, ∀ e ∈ row.2, e.on ∈ ks

instance (t : Table α) (ks : List CharClass) : Decidable (Asks t ks) :=
  inferInstanceAs (Decidable (∀ row ∈ t, ∀ e ∈ row.2, e.on ∈ ks))

/-- The classes do not tell the bytes apart. -/
def Alike (ks : List CharClass) (c d : UInt8) : Prop := ∀ k ∈ ks, k.has c = k.has d

instance (ks : List CharClass) (c d : UInt8) : Decidable (Alike ks c d) :=
  inferInstanceAs (Decidable (∀ k ∈ ks, k.has c = k.has d))

theorem find_alike {ks : List CharClass} {es : List (Edge α)} (hes : ∀ e ∈ es, e.on ∈ ks) (h : Alike ks c d) :
    es.find? (·.on.has c) = es.find? (·.on.has d) := by
  induction es with
  | nil => rfl
  | cons e es ih =>
    rw [List.find?_cons, List.find?_cons, h _ (hes e List.mem_cons_self),
      ih fun e he => hes e (List.mem_cons_of_mem _ he)]

theorem mem_of_lookup {cs : Nat} {es : List (Edge α)} (h : t.lookup cs = some es) : (cs, es) ∈ t := by
  obtain ⟨l₁, l₂, rfl, -⟩ := List.lookup_eq_some_iff.mp h
  simp

/-- The rows are numbered from 1 on, in their order. -/
def Numbered (t : Table α) : Prop := t.map Prod.fst = List.range' 1 t.length

instance (t : Table α) : Decidable (Numbered t) := inferInstanceAs (Decidable (_ = _))

theorem Numbered.row (h : Numbered t) {i : Nat} {row : Nat × List (Edge α)} (hrow : t[i]? = some row) : row.1 = i + 1 := by
  have hkey : (t.map Prod.fst)[i]? = some row.1 := by rw [List.getElem?_map, hrow]; rfl
  rw [h, List.getElem?_range' (List.getElem?_eq_some_iff.mp hrow).1] at hkey
  rw [← Option.some.inj hkey, Nat.one_mul, Nat.add_comm]

theorem lookup_numbered {cs : Nat} {es : List (Edge α)} (h : Numbered t) (hrow : t[cs - 1]? = some (cs, es)) :
    t.lookup cs = some es := by
  obtain ⟨hlt, hget⟩ := List.getElem?_eq_some_iff.mp hrow
  refine List.lookup_eq_some_iff.mpr ⟨t.take (cs - 1), t.drop (cs - 1 + 1), ?_, fun row hrow => ?_⟩
  · rw [← hget, List.getElem_cons_drop, List.take_append_drop]
  · obtain ⟨i, hi⟩ := List.mem_iff_getElem?.mp hrow
    have hlow : i < cs - 1 := by
      have hlen := (List.getElem?_eq_some_iff.mp hi).1
      rw [List.length_take] at hlen
      exact Nat.lt_of_lt_of_le hlen (Nat.min_le_left ..)
    rw [List.getElem?_take_of_lt hlow] at hi
    rw [bne_iff_ne, h.row hi]
    omega

/-- Where an edge leads and what it runs, from a row. -/
def rowEdge (es : List (Edge α)) (c : UInt8) : Option (Nat × List α) :=
  (es.find? (·.on.has c)).map fun e => (e.target, e.actions)

/-! ### Regions -/

variable {code : σ → Nat} {next : σ → UInt8 → Option σ} {places : List σ} {on : UInt8 → Bool} {q q' : σ}

/-- In these places, over the bytes of `on`, the table goes on as the machine does, without actions. -/
structure Region (t : Table α) (code : σ → Nat) (next : σ → UInt8 → Option σ) (places : List σ) (on : UInt8 → Bool) :
    Prop where
  edge : ∀ q ∈ places, ∀ c, on c = true → edge t (code q) c = (next q c).map fun q' => (code q', [])
  closed : ∀ q ∈ places, ∀ c q', on c = true → next q c = some q' → q' ∈ places

/-- Whether a row says the same as `f`, for one byte of every kind. -/
def rowAgrees [DecidableEq α] (t : Table α) (cs : Nat) (reps : List UInt8) (f : UInt8 → Option (Nat × List α)) : Bool :=
  match t[cs - 1]? with
  | none => false
  | some row => Nat.beq row.1 cs && reps.all fun d => decide (rowEdge row.2 d = f d)

theorem edge_alike {ks : List CharClass} {cs : Nat} (hasks : Asks t ks) (h : Alike ks c d) :
    Scan.edge t cs c = Scan.edge t cs d := by
  unfold Scan.edge next
  rcases hes : t.lookup cs with _ | es
  · rfl
  · rw [Option.getD_some, find_alike (hasks _ (mem_of_lookup hes)) h]

/-- A byte goes where one of its kind goes. -/
theorem edge_of_rowAgrees [DecidableEq α] {ks : List CharClass} {cs : Nat} {reps : List UInt8}
    {f : UInt8 → Option (Nat × List α)} (hasks : Asks t ks) (hnumbered : Numbered t) (hcd : ∃ d ∈ reps, Alike ks c d)
    (hf : ∀ d, Alike ks c d → f c = f d) (h : rowAgrees t cs reps f = true) : Scan.edge t cs c = f c := by
  obtain ⟨d, hd, hcd⟩ := hcd
  rw [edge_alike hasks hcd, hf d hcd]
  unfold rowAgrees at h
  split at h
  · cases h
  · rename_i row hrow
    rw [Bool.and_eq_true] at h
    have hkey : row.1 = cs := Nat.eq_of_beq_eq_true h.1
    have hlookup : t.lookup cs = some row.2 := lookup_numbered hnumbered (by rw [hrow, ← hkey])
    rw [← of_decide_eq_true (List.all_eq_true.mp h.2 d hd)]
    unfold Scan.edge next rowEdge
    rw [hlookup, Option.getD_some]

/-- Over the bytes of the region the table and the machine read the same texts. -/
theorem Region.segment (h : Region t code next places on) (hq : q ∈ places) (hw : ∀ c ∈ w, on c = true)
    (hrun : w.foldlM next q = some q') : q' ∈ places ∧ Segment t stops w (code q) (code q') [] := by
  induction w generalizing q with
  | nil =>
    obtain rfl := Option.some.inj hrun
    exact ⟨hq, .nil⟩
  | cons c w ih =>
    rw [List.foldlM_cons] at hrun
    obtain ⟨q₁, hq₁, hrun⟩ := Option.bind_eq_some_iff.mp hrun
    have hc := hw c List.mem_cons_self
    obtain ⟨hplace, hrest⟩ := ih (h.closed q hq c q₁ hc hq₁) (fun d hd => hw d (List.mem_cons_of_mem _ hd)) hrun
    refine ⟨hplace, .skip ?_ hrest⟩
    rw [h.edge q hq c hc, hq₁]
    rfl

/-- The scan comes to a byte that it has no edge for, and has run nothing until then. -/
def Stuck (t : Table α) (stops : α → Bool) (cs : Nat) (xs : List UInt8) : Prop :=
  ∃ ys c zs cs', xs = ys ++ c :: zs ∧ Segment t stops ys cs cs' [] ∧ Scan.next t cs' c = none

theorem Region.stuck (h : Region t code next places on) (hq : q ∈ places) (hw : ∀ c ∈ w, on c = true)
    (hrun : w.foldlM next q = none) : Stuck t stops (code q) w := by
  induction w generalizing q with
  | nil => cases hrun
  | cons c w ih =>
    rw [List.foldlM_cons] at hrun
    have hc := hw c List.mem_cons_self
    have hedge := h.edge q hq c hc
    rcases hq₁ : next q c with _ | q₁
    · rw [hq₁] at hedge
      exact ⟨[], c, w, code q, rfl, .nil, Option.map_eq_none_iff.mp hedge⟩
    · rw [hq₁] at hrun hedge
      obtain ⟨ys, d, zs, cs', rfl, hseg, hnext⟩ :=
        ih (h.closed q hq c q₁ hc hq₁) (fun d hd => hw d (List.mem_cons_of_mem _ hd)) hrun
      exact ⟨c :: ys, d, zs, cs', rfl, .skip hedge hseg, hnext⟩

theorem foldlM_loop {f : σ → UInt8 → Option σ} (h : ∀ c ∈ w, f q c = some q) : w.foldlM f q = some q := by
  induction w with
  | nil => rfl
  | cons c w ih =>
    rw [List.foldlM_cons, h c List.mem_cons_self]
    exact ih fun d hd => h d (List.mem_cons_of_mem _ hd)

theorem foldlM_closed {f : σ → UInt8 → Option σ} (h : ∀ q ∈ places, ∀ c, ∀ q' ∈ f q c, q' ∈ places) (hq : q ∈ places)
    (hrun : w.foldlM f q = some q') : q' ∈ places := by
  induction w generalizing q with
  | nil => exact Option.some.inj hrun ▸ hq
  | cons c w ih =>
    rw [List.foldlM_cons] at hrun
    obtain ⟨q₁, hq₁, hrun⟩ := Option.bind_eq_some_iff.mp hrun
    exact ih (h q hq c q₁ hq₁) hrun

theorem foldlM_congr {f g : σ → UInt8 → Option σ} (h : ∀ c ∈ w, ∀ q, f q c = g q c) : w.foldlM f q = w.foldlM g q := by
  induction w generalizing q with
  | nil => rfl
  | cons c w ih =>
    rw [List.foldlM_cons, List.foldlM_cons, h c List.mem_cons_self]
    exact bind_congr fun q => ih fun d hd => h d (List.mem_cons_of_mem _ hd)

/-- A byte that a machine never reads is in no text that it reads. -/
theorem not_mem_of_foldlM {f : σ → UInt8 → Option σ} (h : ∀ q, f q c = none) (hrun : w.foldlM f q = some q') : c ∉ w := by
  induction w generalizing q with
  | nil => exact List.not_mem_nil
  | cons d w ih =>
    rw [List.foldlM_cons] at hrun
    obtain ⟨q₁, hq₁, hrun⟩ := Option.bind_eq_some_iff.mp hrun
    intro hmem
    rcases List.mem_cons.mp hmem with rfl | hmem
    · rw [h q] at hq₁
      cases hq₁
    · exact ih hrun hmem

/-! ### Two machines side by side -/

variable {f : σ → UInt8 → Option σ} {g : τ → UInt8 → Option τ} {x : Option σ} {y : Option τ}

/-- Both machines, of which one at least goes on. -/
def either : Option σ → Option τ → Option (Option σ × Option τ)
  | none, none => none
  | x, y => some (x, y)

def beside (f : σ → UInt8 → Option σ) (g : τ → UInt8 → Option τ) (q : Option σ × Option τ) (c : UInt8) :
    Option (Option σ × Option τ) := either (q.1.bind (f · c)) (q.2.bind (g · c))

theorem either_eq_some {p : Option σ × Option τ} : either x y = some p ↔ (x ≠ none ∨ y ≠ none) ∧ p = (x, y) := by
  cases x <;> cases y <;> simp [either, eq_comm]

theorem either_eq_none : either x y = none ↔ x = none ∧ y = none := by
  cases x <;> cases y <;> simp [either]

theorem foldlM_none_bind : (x.bind fun q => (c :: w).foldlM f q) = (x.bind (f · c)).bind fun q => w.foldlM f q := by
  cases x <;> simp [List.foldlM_cons]

/-- Each of the machines reads for itself. -/
theorem foldlM_beside (h : x ≠ none ∨ y ≠ none) :
    w.foldlM (beside f g) (x, y) = either (x.bind fun q => w.foldlM f q) (y.bind fun q => w.foldlM g q) := by
  induction w generalizing x y with
  | nil =>
    have hx : (x.bind fun q => [].foldlM f q) = x := by cases x <;> rfl
    have hy : (y.bind fun q => [].foldlM g q) = y := by cases y <;> rfl
    rw [hx, hy]
    exact (either_eq_some.mpr ⟨h, rfl⟩).symm
  | cons c w ih =>
    rw [foldlM_none_bind, foldlM_none_bind, List.foldlM_cons, beside]
    rcases hnext : either (x.bind (f · c)) (y.bind (g · c)) with _ | p
    · obtain ⟨hx, hy⟩ := either_eq_none.mp hnext
      rw [hx, hy]
      rfl
    · obtain ⟨hsome, rfl⟩ := either_eq_some.mp hnext
      exact ih hsome

end Lib.Scan
