import MyHttp.Lib.OrderedSet
import Mathlib.Data.Finset.Insert

/-! Containers that are filled one element at a time and iterated. A container is got again by inserting its elements in
    the order in which they are iterated, and what is iterated has been inserted. -/

namespace Lib.Containers

variable {α κ S : Type} {a b : α} {l : List α}

/-- A container: its elements in their order, and what an insertion makes of it. -/
structure Container (α S : Type) where
  iterate : S → List α
  empty : S
  insert : S → α → S

namespace Container

/-- The elements of a list, one after another. -/
def build (C : Container α S) (l : List α) : S := l.foldl C.insert C.empty

structure Lawful (C : Container α S) : Prop where
  build_iterate : ∀ s, C.build (C.iterate s) = s
  mem_build : ∀ l, ∀ a ∈ C.iterate (C.build l), a ∈ l

/-- No two elements that are iterated have the same key. -/
def Keyed (C : Container α S) (key : α → κ) : Prop := ∀ s, (C.iterate s).Pairwise fun a b => key a ≠ key b

end Container

/-! ### Lists -/

/-- Elements are put at the end. -/
def sequence (α : Type) : Container α (List α) := ⟨id, [], fun l a => l ++ [a]⟩

theorem build_sequence (l : List α) : (sequence α).build l = l := by
  have hbuild : ∀ (l l' : List α), l.foldl (fun l a => l ++ [a]) l' = l' ++ l := by
    intro l
    induction l with
    | nil => exact fun l' => (List.append_nil l').symm
    | cons a l ih =>
      intro l'
      rw [List.foldl_cons, ih, List.append_assoc]
      rfl
  exact hbuild l []

theorem sequence_lawful : (sequence α).Lawful where
  build_iterate := build_sequence
  mem_build l a ha := by rwa [build_sequence] at ha

/-! ### Elements in order -/

/-- Elements in order, of which no two are equivalent. -/
@[ext] structure Ordered (lt : α → α → Prop) where
  elems : List α
  sorted : elems.Pairwise lt

section Order

variable {lt : α → α → Prop} [DecidableRel lt]

theorem insert_last (h : ∀ b ∈ l, lt b a) : (OrderedSet.insert lt l a).1 = l ++ [a] := by
  induction l with
  | nil => rfl
  | cons b l ih =>
    rw [OrderedSet.insert_cons, if_pos (h b List.mem_cons_self), ih fun c hc => h c (List.mem_cons_of_mem b hc)]
    rfl

variable [IsTrans α lt]

/-- An element equivalent to the new one is kept. -/
def ordered (lt : α → α → Prop) [DecidableRel lt] [IsTrans α lt] : Container α (Ordered lt) where
  iterate s := s.elems
  empty := ⟨[], .nil⟩
  insert s a := ⟨(OrderedSet.insert lt s.elems a).1, OrderedSet.insert_sorted s.sorted⟩

theorem elems_foldl {s : Ordered lt} (h : (s.elems ++ l).Pairwise lt) :
    (l.foldl (ordered lt).insert s).elems = s.elems ++ l := by
  induction l generalizing s with
  | nil => exact (List.append_nil s.elems).symm
  | cons a l ih =>
    have hlast : ((ordered lt).insert s a).elems = s.elems ++ [a] :=
      insert_last fun b hb => (List.pairwise_append.mp h).2.2 b hb a List.mem_cons_self
    have hsplit : ((ordered lt).insert s a).elems ++ l = s.elems ++ a :: l := by
      rw [hlast, List.append_assoc]
      rfl
    rw [List.foldl_cons, ih (hsplit ▸ h), hsplit]

theorem mem_foldl_ordered {s : Ordered lt} (ha : a ∈ (l.foldl (ordered lt).insert s).elems) : a ∈ s.elems ∨ a ∈ l := by
  induction l generalizing s with
  | nil => exact .inl ha
  | cons b l ih =>
    rcases ih ha with hs | hl
    · rcases OrderedSet.mem_insert hs with rfl | hs
      · exact .inr List.mem_cons_self
      · exact .inl hs
    · exact .inr (List.mem_cons_of_mem b hl)

theorem ordered_lawful : (ordered lt).Lawful where
  build_iterate s := Ordered.ext (elems_foldl s.sorted)
  mem_build _ _ ha := (mem_foldl_ordered ha).resolve_left List.not_mem_nil

theorem ordered_keyed {key : α → κ} (h : ∀ a b, lt a b → key a ≠ key b) : (ordered lt).Keyed key :=
  fun s => s.sorted.imp (h _ _)

end Order

/-! ### Elements by their keys -/

/-- Elements of which no two have the same key, in no order. -/
@[ext] structure Hashed (key : α → κ) where
  elems : Finset α
  single : ∀ a ∈ elems, ∀ b ∈ elems, key a = key b → a = b

section Hash

variable [DecidableEq α] [DecidableEq κ] {key : α → κ}

/-- An element with the key of the new one is kept. -/
def Hashed.insert (s : Hashed key) (a : α) : Hashed key :=
  if h : ∃ b ∈ s.elems, key b = key a then s
  else
    { elems := Insert.insert a s.elems
      single := by
        intro b hb c hc heq
        rcases Finset.mem_insert.mp hb with rfl | hb'
        · rcases Finset.mem_insert.mp hc with rfl | hc'
          · rfl
          · exact absurd ⟨c, hc', heq.symm⟩ h
        · rcases Finset.mem_insert.mp hc with rfl | hc'
          · exact absurd ⟨b, hb', heq⟩ h
          · exact s.single b hb' c hc' heq }

/-- The order of an implementation: every element once. -/
structure Iteration (key : α → κ) where
  order : Hashed key → List α
  nodup : ∀ s, (order s).Nodup
  mem_order : ∀ s a, a ∈ order s ↔ a ∈ s.elems

def hashed (iteration : Iteration key) : Container α (Hashed key) :=
  ⟨iteration.order, ⟨∅, fun _ ha => absurd ha (Finset.notMem_empty _)⟩, Hashed.insert⟩

theorem Hashed.mem_insert {s : Hashed key} (h : b ∈ (s.insert a).elems) : b = a ∨ b ∈ s.elems := by
  unfold Hashed.insert at h
  split at h
  · exact .inr h
  · exact Finset.mem_insert.mp h

theorem Hashed.mem_insert_new {s : Hashed key} (h : ∀ c ∈ s.elems, key c ≠ key a) :
    b ∈ (s.insert a).elems ↔ b = a ∨ b ∈ s.elems := by
  unfold Hashed.insert
  rw [dif_neg fun ⟨c, hc, heq⟩ => h c hc heq, Finset.mem_insert]

theorem mem_foldl_hashed {s : Hashed key} (h : b ∈ (l.foldl Hashed.insert s).elems) : b ∈ s.elems ∨ b ∈ l := by
  induction l generalizing s with
  | nil => exact .inl h
  | cons a l ih =>
    rcases ih h with hs | hl
    · rcases Hashed.mem_insert hs with rfl | hs
      · exact .inr List.mem_cons_self
      · exact .inl hs
    · exact .inr (List.mem_cons_of_mem a hl)

/-- Elements with keys of their own are all kept. -/
theorem mem_foldl_iff {s : Hashed key} (hl : l.Pairwise fun a b => key a ≠ key b)
    (hs : ∀ c ∈ s.elems, ∀ a ∈ l, key c ≠ key a) : b ∈ (l.foldl Hashed.insert s).elems ↔ b ∈ s.elems ∨ b ∈ l := by
  induction l generalizing s with
  | nil => exact (or_iff_left List.not_mem_nil).symm
  | cons a l ih =>
    obtain ⟨ha, hl⟩ := List.pairwise_cons.mp hl
    have hnew : ∀ c, c ∈ (s.insert a).elems ↔ c = a ∨ c ∈ s.elems :=
      fun c => Hashed.mem_insert_new fun c hc => hs c hc a List.mem_cons_self
    have hrest : ∀ c ∈ (s.insert a).elems, ∀ a' ∈ l, key c ≠ key a' := by
      intro c hc a' ha'
      rcases (hnew c).mp hc with rfl | hc
      · exact ha a' ha'
      · exact hs c hc a' (List.mem_cons_of_mem a ha')
    rw [List.foldl_cons, ih hl hrest, hnew, List.mem_cons]
    tauto

theorem hashed_keyed (iteration : Iteration key) : (hashed iteration).Keyed key := by
  intro s
  refine (iteration.nodup s).pairwise_of_forall_ne fun a ha b hb hne heq => hne ?_
  exact s.single a ((iteration.mem_order s a).mp ha) b ((iteration.mem_order s b).mp hb) heq

theorem hashed_lawful (iteration : Iteration key) : (hashed iteration).Lawful where
  build_iterate s := by
    refine Hashed.ext (Finset.ext fun a => ?_)
    have hall : a ∈ ((hashed iteration).build (iteration.order s)).elems ↔ a ∈ iteration.order s :=
      (mem_foldl_iff (hashed_keyed iteration s) fun c hc => absurd hc (Finset.notMem_empty c)).trans
        (or_iff_right (Finset.notMem_empty a))
    exact hall.trans (iteration.mem_order s a)
  mem_build l a ha := by
    have hmem : a ∈ (l.foldl Hashed.insert (hashed iteration).empty).elems := (iteration.mem_order _ a).mp ha
    exact (mem_foldl_hashed hmem).resolve_left (Finset.notMem_empty a)

end Hash

end Lib.Containers
