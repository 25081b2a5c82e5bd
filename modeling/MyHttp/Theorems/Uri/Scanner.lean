import MyHttp.Uri.Reference
import MyHttp.Lib.Regions
import Mathlib.Data.List.TakeWhile

/-! The machine of URIs from some place in the text on: what `Create` makes of the text that is left. -/

namespace MyHttp
namespace Uri

open Lib.CString Lib.Scan UriParser

universe u

variable {s w d t : Bytes} {p cs cs' : Nat} {c : UInt8} {r : Option UriReader} {x : UriReader} {as : List UriAction}

/-! ### Bytes -/

/-- The classes the machine asks for. -/
def classes : List CharClass :=
  [xdigit, byte 58, digit, byte 46, byte 93, nameChar, byte 35, byte 63, byte 47, byte 37, byte 64, byte 2, byte 48,
    byte 49, byte 50, byte 53, upTo5, upTo4, userChar, byte 91, pathChar, queryChar, segmentChar, alpha, schemeChar,
    byte 118]

/-- One byte of every kind. -/
def kinds : List UInt8 :=
  [0, 2, 33, 35, 37, 43, 46, 47, 48, 49, 50, 51, 53, 54, 58, 63, 64, 65, 71, 91, 93, 118, 128]

theorem table_asks : Asks table classes := by decide +kernel

theorem table_numbered : Numbered table := by decide +kernel

theorem exists_alike : ∀ c, ∃ d ∈ kinds, Alike classes c d := by
  refine forall_byte ?_
  decide +kernel

/-- The bytes that are not in a list. -/
def outside (stop : Bytes) (c : UInt8) : Bool := decide (c ∉ stop)

theorem byte_has {b : UInt8} : (byte b.toNat).has c = decide (c = b) := by
  simp only [byte, CharClass.has, List.any_cons, List.any_nil, Bool.or_false, ← UInt8.toNat_inj]
  rw [← Bool.decide_and, decide_eq_decide]
  omega

theorem has_of_outside {stop : Bytes} {b : UInt8} (hb : b ∈ stop) (hc : outside stop c = true) :
    (byte b.toNat).has c = false := by
  rw [byte_has, decide_eq_false_iff_not]
  rintro rfl
  exact of_decide_eq_true hc hb

theorem outside_of_or {k l n : Bytes} (hsub : ∀ c ∈ n, c ∈ k ∨ c ∈ l) (hk : outside k c = true) (hl : outside l c = true) :
    outside n c = true := by
  have hk : c ∉ k := of_decide_eq_true hk
  have hl : c ∉ l := of_decide_eq_true hl
  have hn : c ∉ n := fun hc => (hsub c hc).elim hk hl
  exact decide_eq_true hn

theorem outside_of_subset {k n : Bytes} (hsub : ∀ c ∈ n, c ∈ k) (hk : outside k c = true) : outside n c = true := by
  have hk : c ∉ k := of_decide_eq_true hk
  have hn : c ∉ n := fun hc => hk (hsub c hc)
  exact decide_eq_true hn

theorem outside_alike {stop : Bytes} (hstop : ∀ b ∈ stop, byte b.toNat ∈ classes) {d : UInt8} (h : Alike classes c d) :
    outside stop c = outside stop d := by
  have heq : ∀ b ∈ stop, (c = b ↔ d = b) := fun b hb => by
    have hbyte := h _ (hstop b hb)
    rw [byte_has, byte_has, decide_eq_decide] at hbyte
    exact hbyte
  rw [outside, outside, decide_eq_decide, not_iff_not]
  exact ⟨fun hc => (heq c hc).mp rfl ▸ hc, fun hd => (heq d hd).mpr rfl ▸ hd⟩

theorem edge_of_row {f : UInt8 → Option (Nat × List UriAction)} (hf : ∀ c d, Alike classes c d → f c = f d)
    (h : rowAgrees table cs kinds f = true) : edge table cs c = f c :=
  edge_of_rowAgrees table_asks table_numbered (exists_alike c) (fun d => hf c d) h

theorem edge_of_kinds {stop : Bytes} (hstop : ∀ b ∈ stop, byte b.toNat ∈ classes)
    {f : UInt8 → Option (Nat × List UriAction)} (hf : ∀ c d, Alike classes c d → f c = f d)
    (h : rowAgrees table cs (kinds.filter (outside stop)) f = true) (hc : outside stop c = true) :
    edge table cs c = f c := by
  obtain ⟨d, hd, hcd⟩ := exists_alike c
  exact edge_of_rowAgrees table_asks table_numbered ⟨d, List.mem_filter.mpr ⟨hd, outside_alike hstop hcd ▸ hc⟩, hcd⟩
    (fun d => hf c d) h

/-! ### The rest of a text -/

/-- What `Create` returns when the machine is at a position of the text, with the rest of the text before it. -/
def outcome (s : Bytes) (p cs : Nat) (r : Option UriReader) (t : Bytes) : Except StringError (Option Uri) :=
  finish s (exec table (fun _ => false) (act s) p cs r t)

/-- The reader after some actions at one position. -/
def runs (s : Bytes) (p : Nat) (as : List UriAction) (r : Option UriReader) : Option UriReader :=
  as.foldl (fun r a => act s a p r) r

/-- A machine that is stopped by a byte. -/
def stopped : Option UriReader → Except StringError (Option Uri)
  | none => .error .null
  | some _ => .ok none

theorem runs_none : runs s p as none = none := by
  induction as with
  | nil => rfl
  | cons a as ih => exact ih

theorem runs_append {as' : List UriAction} : runs s p (as ++ as') r = runs s p as' (runs s p as r) :=
  List.foldl_append ..

theorem create_eq_outcome : create s = outcome s 0 451 (some ⟨none, new⟩) s := rfl

theorem outcome_cons (h : edge table cs c = some (cs', as)) :
    outcome s p cs r (c :: t) = outcome s (p + 1) cs' (runs s p as r) t := by
  obtain ⟨e, he, heq⟩ := Option.map_eq_some_iff.mp h
  obtain ⟨rfl, rfl⟩ := Prod.mk.inj heq
  unfold outcome runs
  rw [exec]
  simp [he]

theorem outcome_none (h : edge table cs c = none) : outcome s p cs r (c :: t) = stopped r := by
  unfold outcome
  rw [exec, Option.map_eq_none_iff.mp h]
  cases r <;> rfl

theorem outcome_nil : outcome s p cs r [] = match runs s p (eofActions cs) r with
    | none => .error .null
    | some x => .ok (if 451 ≤ cs then some x.uri else none) := rfl

theorem outcome_end {y : UriReader} (hcs : 451 ≤ cs) (hr : runs s p (eofActions cs) r = some y) :
    outcome s p cs r [] = .ok (some y.uri) := by
  rw [outcome_nil, hr]
  exact congrArg Except.ok (if_pos hcs)

theorem eofActions_low (hcs : cs < 451) : eofActions cs = [] := by
  unfold eofActions
  repeat rw [if_neg (by omega)]

/-- The text ends where the machine is not done. -/
theorem outcome_unfinished (hcs : cs < 451) : outcome s p cs (some x) [] = .ok none := by
  rw [outcome_nil, eofActions_low hcs]
  exact congrArg Except.ok (if_neg (Nat.not_le.mpr hcs))

theorem outcome_segment (h : Segment table (fun _ => false) w cs cs' []) :
    outcome s p cs r (w ++ t) = outcome s (p + w.length) cs' r t := by
  unfold outcome
  rw [exec_append h.through, exec_store, h.calls]
  rfl

theorem outcome_stuck (h : Stuck table (fun _ => false) cs w) : outcome s p cs r (w ++ t) = stopped r := by
  obtain ⟨ys, c, zs, cs', rfl, hseg, hnext⟩ := h
  rw [List.append_assoc, outcome_segment hseg, List.cons_append]
  exact outcome_none (by rw [edge, hnext]; rfl)

/-- After an exception nothing counts any more. -/
theorem outcome_thrown : outcome s p cs none t = .error .null := by
  induction t generalizing p cs with
  | nil =>
    rw [outcome_nil, runs_none]
  | cons c t ih =>
    rcases hedge : edge table cs c with _ | ⟨cs', as⟩
    · exact outcome_none hedge
    · rw [outcome_cons hedge, runs_none]
      exact ih

/-! ### Regions -/

variable {σ : Type u} {code : σ → Nat} {next : σ → UInt8 → Option σ} {places : List σ} {on : UInt8 → Bool} {q : σ}
  {stop first : Bytes}

/-- A region is checked at one byte of every kind. -/
theorem region_of_kinds [DecidableEq σ] (hstop : ∀ b ∈ stop, byte b.toNat ∈ classes)
    (hnext : ∀ q c d, Alike classes c d → next q c = next q d)
    (hclosed : ∀ q ∈ places, ∀ d ∈ kinds.filter (outside stop), ∀ q' ∈ next q d, q' ∈ places)
    (hrows : ∀ q ∈ places, rowAgrees table (code q) (kinds.filter (outside stop))
      (fun c => (next q c).map fun q' => (code q', [])) = true) : Region table code next places (outside stop) where
  edge q hq c hc := edge_of_kinds hstop (fun c d hcd => by rw [hnext q c d hcd]) (hrows q hq) hc
  closed q hq c q' hc hq' := by
    obtain ⟨d, hd, hcd⟩ := exists_alike c
    rw [hnext q c d hcd] at hq'
    exact hclosed q hq d (List.mem_filter.mpr ⟨hd, outside_alike hstop hcd ▸ hc⟩) q' hq'

/-- What the machine of a region says of the text. -/
theorem outcome_region (h : Region table code next places on) (hq : q ∈ places) (hw : ∀ c ∈ w, on c = true) :
    outcome s p (code q) r (w ++ t) =
      (w.foldlM next q).elim (stopped r) fun q' => outcome s (p + w.length) (code q') r t := by
  rcases hrun : w.foldlM next q with _ | q'
  · exact outcome_stuck (h.stuck hq hw hrun)
  · exact outcome_segment (h.segment hq hw hrun).2

/-- A state from which the first byte of a text leads into a region, and `mark` is set. -/
structure Entrance (X : Nat) (code : σ → Nat) (next : σ → UInt8 → Option σ) (places : List σ) (q : σ)
    (first : UInt8 → Bool) : Prop where
  edge : ∀ c, first c = true → edge table X c = (next q c).map fun q' => (code q', [.mark])
  places : ∀ c q', first c = true → next q c = some q' → q' ∈ places

theorem entrance_of_kinds [DecidableEq σ] {X : Nat} (hstop : ∀ b ∈ stop, byte b.toNat ∈ classes)
    (hnext : ∀ q c d, Alike classes c d → next q c = next q d)
    (hclosed : ∀ d ∈ kinds.filter (outside stop), ∀ q' ∈ next q d, q' ∈ places)
    (hrow : rowAgrees table X (kinds.filter (outside stop)) (fun c => (next q c).map fun q' => (code q', [.mark])) = true) :
    Entrance X code next places q (outside stop) where
  edge c hc := edge_of_kinds hstop (fun c d hcd => by rw [hnext q c d hcd]) hrow hc
  places c q' hc hq' := by
    obtain ⟨d, hd, hcd⟩ := exists_alike c
    rw [hnext q c d hcd] at hq'
    exact hclosed d (List.mem_filter.mpr ⟨hd, outside_alike hstop hcd ▸ hc⟩) q' hq'

theorem outcome_enter {X : Nat} {first : UInt8 → Bool} (h : Region table code next places on)
    (he : Entrance X code next places q first) (hc : first c = true) (hw : ∀ d ∈ w, on d = true) :
    outcome s p X (some x) (c :: w ++ t) = ((c :: w).foldlM next q).elim (.ok none) fun q' =>
      outcome s (p + (c :: w).length) (code q') (some { x with mark := some p }) t := by
  have hedge := he.edge c hc
  rw [List.foldlM_cons, List.cons_append]
  rcases hq' : next q c with _ | q'
  · rw [hq'] at hedge
    exact outcome_none hedge
  · rw [hq'] at hedge
    rw [outcome_cons hedge, List.length_cons, ← Nat.add_assoc, Nat.add_right_comm]
    exact outcome_region h (he.places c q' hc hq') hw

end Uri
end MyHttp
