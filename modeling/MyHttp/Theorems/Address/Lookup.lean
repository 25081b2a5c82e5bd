import Mathlib.Data.List.TakeWhile
import MyHttp.Address

/-! What `Address::Lookup` asks for: without brackets, the pointer to the first colon is passed on as the service also when
    the host is not split there. -/

namespace MyHttp
namespace Address

open Lib.CString

variable {host before after inside rest : Bytes} {c : UInt8}

/-- A host with something between `[` and the first `]`. -/
def Bracketed (host : Bytes) : Prop := ∃ inside rest, host = 91 :: (inside ++ 93 :: rest) ∧ inside ≠ [] ∧ 93 ∉ inside

/-- The node and the service that are to be looked up. -/
inductive Split : Bytes → Bytes × Option Bytes → Prop
  | service {inside after : Bytes} : inside ≠ [] → 93 ∉ inside → Split (91 :: (inside ++ 93 :: 58 :: after)) (inside, some after)
  | bare {inside rest : Bytes} : inside ≠ [] → 93 ∉ inside → rest.head? ≠ some 58 →
      Split (91 :: (inside ++ 93 :: rest)) (inside, none)
  | colon {before after : Bytes} : ¬Bracketed (before ++ 58 :: after) → before ≠ [] → 58 ∉ before → 58 ∉ after →
      Split (before ++ 58 :: after) (before, some after)
  | whole {host : Bytes} : ¬Bracketed host → host.count 58 ≠ 1 ∨ host.head? = some 58 → Split host (host, none)

/-! ### Pointers -/

theorem memchr_none (h : c ∉ host) : memchr c host = none :=
  if_neg fun hc => h (List.contains_iff_mem.mp hc)

theorem memchr_append (h : c ∉ before) : memchr c (before ++ c :: after) = some (c :: after) := by
  have hne : ∀ d ∈ before, decide (d ≠ c) = true := fun d hd => decide_eq_true fun heq => h (heq ▸ hd)
  have hstop : ¬decide (c ≠ c) = true := fun hc => of_decide_eq_true hc rfl
  rw [memchr, if_pos (List.contains_iff_mem.mpr (List.mem_append_right _ List.mem_cons_self)),
    List.dropWhile_append_of_pos hne, List.dropWhile_cons, if_neg hstop]

theorem take_before : (before ++ c :: after).take ((before ++ c :: after).length - (c :: after).length) = before := by
  rw [List.length_append, Nat.add_sub_cancel, List.take_left']
  rfl

theorem untilNul (h : 0 ∉ host) : host.takeWhile (· ≠ 0) = host :=
  List.takeWhile_eq_self_iff.mpr fun _ hd => decide_eq_true fun heq => h (heq ▸ hd)

/-! ### The two passes -/

theorem bracketedNode_inside (h : 93 ∉ inside) : bracketedNode (91 :: (inside ++ 93 :: rest)) =
    (inside, if rest.head? = some 58 then some rest.tail else none) := by
  have hopen : (91 :: (inside ++ 93 :: rest)).head? = some 91 := rfl
  rw [bracketedNode, if_pos hopen, List.tail_cons, memchr_append h]
  dsimp only
  rw [take_before, List.tail_cons]
  cases rest <;> rfl

/-- The first pass finds no node without brackets. -/
theorem bracketedNode_plain (h : ¬Bracketed host) : (bracketedNode host).1 = [] := by
  rw [bracketedNode]
  split
  · rename_i hopen
    obtain ⟨tail, rfl⟩ : ∃ tail, host = 91 :: tail := by
      cases host with
      | nil => cases hopen
      | cons d tail => exact ⟨tail, congrArg (· :: tail) (Option.some.inj hopen)⟩
    by_cases hclose : 93 ∈ tail
    · obtain ⟨inside, rest, rfl, hinside⟩ := List.eq_append_cons_of_mem hclose
      rw [List.tail_cons, memchr_append hinside]
      dsimp only
      rw [take_before]
      exact by_contra fun hne => h ⟨inside, rest, rfl, hne, hinside⟩
    · rw [List.tail_cons, memchr_none hclose]
  · rfl

theorem plainNode_none (h : 58 ∉ host) : plainNode host = ([], none) := by
  rw [plainNode, memchr_none h]

theorem plainNode_one (hbefore : 58 ∉ before) (hafter : 58 ∉ after) :
    plainNode (before ++ 58 :: after) = (before, some after) := by
  rw [plainNode, memchr_append hbefore]
  dsimp only
  rw [List.tail_cons, memchr_none hafter, if_pos Option.isNone_none, take_before]

/-- The second pass gives a service also when there is no node. -/
theorem plainNode_more (hbefore : 58 ∉ before) (hafter : 58 ∈ after) :
    plainNode (before ++ 58 :: after) = ([], some (58 :: after)) := by
  obtain ⟨middle, last, rfl, hmiddle⟩ := List.eq_append_cons_of_mem hafter
  rw [plainNode, memchr_append hbefore]
  dsimp only
  rw [List.tail_cons, memchr_append hmiddle, if_neg fun h => Bool.noConfusion h]

/-! ### The arguments -/

theorem lookupArgs_inside (hnul : 0 ∉ 91 :: (inside ++ 93 :: rest)) (hne : inside ≠ []) (h : 93 ∉ inside) :
    lookupArgs (91 :: (inside ++ 93 :: rest)) = (inside, if rest.head? = some 58 then some rest.tail else none) := by
  have hinside : 0 ∉ inside := fun h0 => hnul (List.mem_cons_of_mem _ (List.mem_append_left _ h0))
  have hrest : 0 ∉ rest.tail := fun h0 =>
    hnul (List.mem_cons_of_mem _ (List.mem_append_right _ (List.mem_cons_of_mem _ (List.mem_of_mem_tail h0))))
  rw [lookupArgs, bracketedNode_inside h]
  dsimp only
  rw [if_neg hne]
  dsimp only
  rw [if_neg hne, untilNul hinside]
  split
  · rw [Option.map_some, untilNul hrest]
  · rfl

theorem lookupArgs_plain {node : Bytes} {service : Option Bytes} (h : ¬Bracketed host) (hplain : plainNode host = (node, service))
    (hnul : 0 ∉ host) (hnode : 0 ∉ node) (hservice : ∀ s ∈ service, 0 ∉ s) :
    lookupArgs host = (if node = [] then host else node, service) := by
  have hnone : service.map (·.takeWhile (· ≠ 0)) = service := by
    cases service with
    | none => rfl
    | some s => exact congrArg some (untilNul (hservice s rfl))
  have hfirst := bracketedNode_plain h
  rw [lookupArgs]
  generalize bracketedNode host = first at hfirst
  dsimp only
  rw [if_pos hfirst, hplain]
  dsimp only
  rw [hnone]
  split
  · rw [untilNul hnul]
  · rw [untilNul hnode]

/-- The whole host is looked up without a service only. -/
theorem not_split (h : ¬Bracketed host) (s : Bytes) : ¬Split host (host, some s) := by
  intro hsplit
  generalize hargs : (host, some s) = args at hsplit
  cases hsplit with
  | service hne hinside => exact h ⟨_, _, rfl, hne, hinside⟩
  | bare hne hinside => exact h ⟨_, _, rfl, hne, hinside⟩
  | @colon before after =>
    have hlength := congrArg List.length (Prod.mk.inj hargs).1
    rw [List.length_append, List.length_cons] at hlength
    omega
  | whole => cases (Prod.mk.inj hargs).2

/-- A host is split as it is to be exactly when it is in brackets or has at most one colon, which is not the first byte. -/
theorem lookupArgs_split_iff (hnul : 0 ∉ host) :
    Split host (lookupArgs host) ↔ Bracketed host ∨ (host.count 58 ≤ 1 ∧ host.head? ≠ some 58) := by
  by_cases hb : Bracketed host
  · refine iff_of_true ?_ (.inl hb)
    obtain ⟨inside, rest, rfl, hne, hinside⟩ := hb
    rw [lookupArgs_inside hnul hne hinside]
    split
    · rename_i hcolon
      obtain ⟨after, rfl⟩ : ∃ after, rest = 58 :: after := by
        cases rest with
        | nil => cases hcolon
        | cons d after => exact ⟨after, congrArg (· :: after) (Option.some.inj hcolon)⟩
      exact .service hne hinside
    · rename_i hcolon
      exact .bare hne hinside hcolon
  rw [or_iff_right hb]
  by_cases hcolon : 58 ∈ host
  · obtain ⟨before, after, rfl, hbefore⟩ := List.eq_append_cons_of_mem hcolon
    have hnode : 0 ∉ before := fun h0 => hnul (List.mem_append_left _ h0)
    have hrest : 0 ∉ 58 :: after := fun h0 => hnul (List.mem_append_right _ h0)
    have hcount : (before ++ 58 :: after).count 58 = after.count 58 + 1 := by
      rw [List.count_append, List.count_eq_zero.mpr hbefore, List.count_cons_self, Nat.zero_add]
    by_cases hafter : 58 ∈ after
    · have hargs := lookupArgs_plain hb (plainNode_more hbefore hafter) hnul List.not_mem_nil
        fun s hs => Option.some.inj hs ▸ hrest
      rw [hargs, if_pos rfl, hcount]
      have hpos := List.count_pos_iff.mpr hafter
      exact iff_of_false (not_split hb _) fun h => absurd h.1 (by omega)
    · have hargs := lookupArgs_plain hb (plainNode_one hbefore hafter) hnul hnode
        fun s hs => Option.some.inj hs ▸ fun h0 => hrest (List.mem_cons_of_mem _ h0)
      rw [hargs, hcount, List.count_eq_zero.mpr hafter]
      cases before with
      | nil => exact iff_of_false (not_split hb _) fun h => h.2 rfl
      | cons d before =>
        have hhead : (d :: before ++ 58 :: after).head? ≠ some 58 := fun h => hbefore (Option.some.inj h ▸ List.mem_cons_self)
        exact iff_of_true (.colon hb (List.cons_ne_nil _ _) hbefore hafter) ⟨Nat.le_refl 1, hhead⟩
  · have hargs := lookupArgs_plain hb (plainNode_none hcolon) hnul List.not_mem_nil fun s hs => nomatch hs
    have hcount : host.count 58 = 0 := List.count_eq_zero.mpr hcolon
    rw [hargs, if_pos rfl, hcount]
    exact iff_of_true (.whole hb (.inl (by omega))) ⟨Nat.zero_le 1, fun h => hcolon (List.mem_of_head? h)⟩

/-- `www.sylar.top:80`. -/
theorem lookupArgs_split_iff_port : Split (ascii "www.sylar.top:80") (lookupArgs (ascii "www.sylar.top:80")) :=
  (lookupArgs_split_iff (by decide)).mpr (.inr (by decide))

/-- `::1` is looked up with the service `::1`. -/
theorem bare_literal_service : ¬∀ host : Bytes, 0 ∉ host → Split host (lookupArgs host) := by
  intro h
  have hplain : ¬Bracketed (ascii "::1") := by
    rintro ⟨inside, rest, heq, -⟩
    cases (List.cons.inj heq).1
  have hargs : lookupArgs (ascii "::1") = (ascii "::1", some (ascii "::1")) := by decide
  exact not_split hplain _ (hargs ▸ h (ascii "::1") (by decide))

end Address
end MyHttp
