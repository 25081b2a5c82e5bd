import Mathlib.Data.List.Basic
import Mathlib.Tactic.Ring

/-! A sequence stored in chunks of one fixed length. A stretch of the sequence is a list of spans,
    each inside one chunk; reading or writing the spans in order reads or writes the stretch. -/

namespace Lib.Chunks

variable {α : Type*}

/-! ### Overwriting -/

/-- `xs` written over `l` from index `i` on. -/
def overwrite (l : List α) (i : Nat) (xs : List α) : List α :=
  l.take i ++ xs ++ l.drop (i + xs.length)

theorem length_overwrite {l : List α} {i : Nat} {xs : List α} (h : i + xs.length ≤ l.length) :
    (overwrite l i xs).length = l.length := by
  simp only [overwrite, List.length_append, List.length_take, List.length_drop]
  omega

@[simp] theorem overwrite_nil (l : List α) (i : Nat) : overwrite l i [] = l := by
  simp [overwrite]

theorem drop_overwrite {l : List α} {i : Nat} {xs : List α} (h : i ≤ l.length) :
    (overwrite l i xs).drop (i + xs.length) = l.drop (i + xs.length) := by
  rw [overwrite, List.drop_left' (by simp [h])]

theorem overwrite_append_left {l r : List α} {i : Nat} {xs : List α} (h : i + xs.length ≤ l.length) :
    overwrite (l ++ r) i xs = overwrite l i xs ++ r := by
  rw [overwrite, overwrite, List.take_append_of_le_length (by omega), List.drop_append_of_le_length h]
  simp only [List.append_assoc]

theorem overwrite_append_right {l r : List α} {i : Nat} {xs : List α} :
    overwrite (l ++ r) (l.length + i) xs = l ++ overwrite r i xs := by
  rw [overwrite, overwrite, Nat.add_assoc, List.take_length_add_append, List.drop_length_add_append]
  simp only [List.append_assoc]

/-- Two writes that follow each other are one write of both. -/
theorem overwrite_overwrite {l : List α} {i : Nat} {xs : List α} (ys : List α) (h : i + xs.length ≤ l.length) :
    overwrite (overwrite l i xs) (i + xs.length) ys = overwrite l i (xs ++ ys) := by
  have hfront : (overwrite l i xs).take (i + xs.length) = l.take i ++ xs := by
    rw [overwrite, List.take_left' (by simp; omega)]
  have hback : (overwrite l i xs).drop (i + xs.length + ys.length) = l.drop (i + xs.length + ys.length) := by
    rw [← List.drop_drop, drop_overwrite (by omega), List.drop_drop]
  rw [overwrite, hfront, hback, overwrite, List.length_append, List.append_assoc, List.append_assoc,
    List.append_assoc, List.append_assoc, Nat.add_assoc]

/-! ### Chunks of one length -/

/-- Every chunk has length `B`. -/
def Uniform (B : Nat) (cs : List (List α)) : Prop := ∀ c ∈ cs, c.length = B

theorem Uniform.append {B : Nat} {cs ds : List (List α)} (hc : Uniform B cs) (hd : Uniform B ds) :
    Uniform B (cs ++ ds) := fun c h => (List.mem_append.mp h).elim (hc c) (hd c)

theorem Uniform.length_flatten {B : Nat} {cs : List (List α)} (h : Uniform B cs) :
    cs.flatten.length = cs.length * B := by
  induction cs with
  | nil => simp
  | cons c cs ih =>
    have hc : c.length = B := h c List.mem_cons_self
    have ih := ih fun d hd => h d (List.mem_cons_of_mem c hd)
    rw [List.flatten_cons, List.length_append, hc, ih, List.length_cons]
    ring

/-- The sequence splits at the start of a chunk. -/
theorem split_at_chunk {B : Nat} {cs : List (List α)} (h : Uniform B cs) {i : Nat} (hi : i < cs.length) :
    ∃ front c back, cs = front ++ c :: back ∧ front.length = i ∧ c.length = B ∧
      front.flatten.length = i * B ∧ cs[i]? = some c := by
  refine ⟨cs.take i, cs[i], cs.drop (i + 1), ?_, ?_, h _ (List.getElem_mem hi), ?_, List.getElem?_eq_getElem hi⟩
  · simp
  · simp [Nat.le_of_lt hi]
  · have hu : Uniform B (cs.take i) := fun c hc => h c (List.mem_of_mem_take hc)
    rw [hu.length_flatten, List.length_take, Nat.min_eq_left (Nat.le_of_lt hi)]

/-- A stretch of one chunk: `len` elements of chunk number `chunk` from offset `off` on. -/
structure Span where
  chunk : Nat
  off : Nat
  len : Nat
deriving DecidableEq, Repr

/-- What the spans hold, in order. -/
def gather (cs : List (List α)) : List Span → List α
  | [] => []
  | sp :: rest => ((cs[sp.chunk]?.getD []).drop sp.off).take sp.len ++ gather cs rest

/-- `xs` written into the spans, in order. -/
def scatter (cs : List (List α)) : List Span → List α → List (List α)
  | [], _ => cs
  | sp :: rest, xs =>
    scatter (cs.modify sp.chunk fun c => overwrite c sp.off (xs.take sp.len)) rest (xs.drop sp.len)

/-- The spans cover the stretch of `n` elements from position `p` on, each non-empty and inside its chunk. -/
inductive Tiles (B : Nat) : Nat → List Span → Nat → Prop
  | nil {p : Nat} : Tiles B p [] 0
  | cons {p n : Nat} {sp : Span} {rest : List Span} : 0 < sp.len → sp.off + sp.len ≤ B →
      sp.chunk * B + sp.off = p → Tiles B (p + sp.len) rest n → Tiles B p (sp :: rest) (sp.len + n)

/-- The place of a span in the whole sequence. -/
def Span.start (B : Nat) (sp : Span) : Nat := sp.chunk * B + sp.off

theorem Tiles.sum_len {B p n : Nat} {spans : List Span} (h : Tiles B p spans n) : (spans.map Span.len).sum = n := by
  induction h with
  | nil => rfl
  | cons _ _ _ _ ih => rw [List.map_cons, List.sum_cons, ih]

theorem Tiles.inside {B p n : Nat} {spans : List Span} (h : Tiles B p spans n) :
    ∀ sp ∈ spans, 0 < sp.len ∧ sp.off + sp.len ≤ B ∧ p ≤ sp.start B ∧ sp.start B + sp.len ≤ p + n := by
  induction h with
  | nil => intro sp hsp; cases hsp
  | @cons p n sp rest hlen hoff hp _ ih =>
    intro s hs
    have hstart : sp.start B = p := hp
    rcases List.mem_cons.mp hs with rfl | hs
    · exact ⟨hlen, hoff, hstart.ge, by omega⟩
    · obtain ⟨hlen', hoff', hlower, hupper⟩ := ih s hs
      exact ⟨hlen', hoff', by omega, by omega⟩

/-- Every span ends before the later ones begin. -/
theorem Tiles.apart {B p n : Nat} {spans : List Span} (h : Tiles B p spans n) :
    spans.Pairwise fun s t => s.start B + s.len ≤ t.start B := by
  induction h with
  | nil => exact .nil
  | @cons p n sp rest _ _ hp htiles ih =>
    have hstart : sp.start B = p := hp
    refine .cons (fun t ht => ?_) ih
    obtain ⟨-, -, hlower, -⟩ := htiles.inside t ht
    rw [hstart]
    exact hlower

/-- A span that ends inside the sequence lies in one of its chunks. -/
theorem chunk_lt {B i off len p n m : Nat} (hlen : 0 < len) (hp : i * B + off = p) (hn : p + (len + n) ≤ m * B) :
    i < m := by
  by_contra hge
  have : m * B ≤ i * B := Nat.mul_le_mul_right B (Nat.not_lt.mp hge)
  omega

/-- With the whole stretch in the sequence every span has its chunk. -/
theorem Tiles.chunk_lt {B p n m : Nat} {spans : List Span} (h : Tiles B p spans n) (hn : p + n ≤ m * B) :
    ∀ sp ∈ spans, sp.chunk < m := by
  intro sp hsp
  obtain ⟨hlen, -, -, hend⟩ := h.inside sp hsp
  have hstart : sp.chunk * B + sp.off = sp.start B := rfl
  exact Chunks.chunk_lt hlen hstart (n := 0) (by omega)

theorem gather_tiles {B p n : Nat} {cs : List (List α)} {spans : List Span} (h : Uniform B cs)
    (ht : Tiles B p spans n) (hn : p + n ≤ cs.length * B) : gather cs spans = (cs.flatten.drop p).take n := by
  induction ht with
  | nil => simp [gather]
  | @cons p n sp rest hlen hoff hp _ ih =>
    obtain ⟨front, c, back, rfl, -, hc, hfront, hget⟩ := split_at_chunk h (chunk_lt hlen hp hn)
    have hrest := ih (by omega)
    have hhead : ((front ++ c :: back).flatten.drop p).take sp.len = (c.drop sp.off).take sp.len := by
      rw [List.flatten_append, List.flatten_cons, ← hp, ← hfront, List.drop_length_add_append,
        List.drop_append_of_le_length (by omega), List.take_append_of_le_length (by simp; omega)]
    rw [gather, hget, Option.getD_some, hrest, List.take_add, hhead, List.drop_drop]

theorem modify_at {front back : List (List α)} {c : List α} {f : List α → List α} :
    (front ++ c :: back).modify front.length f = front ++ f c :: back := by
  induction front with
  | nil => simp [List.modify]
  | cons d front ih => simpa [List.modify] using ih

/-- Writing one span writes its stretch of the sequence. -/
theorem flatten_modify {B : Nat} {cs : List (List α)} (h : Uniform B cs) {i : Nat} (off : Nat) (xs : List α)
    (hi : i < cs.length) (hoff : off + xs.length ≤ B) :
    (cs.modify i fun c => overwrite c off xs).flatten = overwrite cs.flatten (i * B + off) xs ∧
      Uniform B (cs.modify i fun c => overwrite c off xs) := by
  obtain ⟨front, c, back, rfl, rfl, hc, hfront, -⟩ := split_at_chunk h hi
  rw [modify_at]
  constructor
  · rw [List.flatten_append, List.flatten_append, List.flatten_cons, List.flatten_cons, ← hfront,
      overwrite_append_right, overwrite_append_left (by omega)]
  · intro d hd
    rcases List.mem_append.mp hd with hd | hd
    · exact h d (List.mem_append_left _ hd)
    · rcases List.mem_cons.mp hd with rfl | hd
      · rw [length_overwrite (by omega), hc]
      · exact h d (List.mem_append_right _ (List.mem_cons_of_mem c hd))

/-- Writing the spans writes the stretch they cover, as far as there is something to write, and keeps the chunks'
    number and length. -/
theorem scatter_tiles {B p n : Nat} {cs : List (List α)} {spans : List Span} {xs : List α} (h : Uniform B cs)
    (ht : Tiles B p spans n) (hn : p + n ≤ cs.length * B) (hx : xs.length ≤ n) :
    (scatter cs spans xs).flatten = overwrite cs.flatten p xs ∧ Uniform B (scatter cs spans xs) ∧
      (scatter cs spans xs).length = cs.length := by
  induction ht generalizing cs xs with
  | nil =>
    obtain rfl : xs = [] := List.length_eq_zero_iff.mp (Nat.le_zero.mp hx)
    exact ⟨(overwrite_nil _ _).symm, h, rfl⟩
  | @cons p n sp rest hlen hoff hp _ ih =>
    have hrest : (xs.drop sp.len).length ≤ n := by simp; omega
    have hlt := chunk_lt hlen hp hn
    obtain ⟨hflat, hu⟩ := flatten_modify h sp.off (xs.take sp.len) hlt (by simp; omega)
    obtain ⟨ihflat, ihu, ihlen⟩ := ih hu (by rw [List.length_modify]; omega) hrest
    refine ⟨?_, ihu, by rw [scatter, ihlen, List.length_modify]⟩
    have hroom : p + (xs.take sp.len).length ≤ cs.flatten.length := by rw [h.length_flatten, List.length_take]; omega
    have hboth := overwrite_overwrite (xs.drop sp.len) hroom
    rw [List.take_append_drop] at hboth
    rw [scatter, ihflat, hflat, hp, ← hboth]
    rcases Nat.le_total sp.len xs.length with hle | hge
    · rw [List.length_take, Nat.min_eq_left hle]
    · rw [List.drop_eq_nil_of_le hge, overwrite_nil, overwrite_nil]

end Lib.Chunks
