import MyHttp.Theorems.Log.Scanner

/-! Patterns that are put together from literals, escapes and directives. A formatter puts them out piece by piece
    unless one of the pieces is an escape: its second percent sign is read again, as the first of what follows. -/

namespace MyHttp
namespace Log

open Lib.CString

/-! ### The pieces -/

inductive PatternToken where
  | text (s : Bytes)
  /-- `%%` -/
  | percent
  /-- `%x` or `%x{fmt}` -/
  | directive (x : UInt8) (fmt : Option Bytes)
deriving DecidableEq, Repr

namespace PatternToken

def render : PatternToken → Bytes
  | .text s => s
  | .percent => [37, 37]
  | .directive x none => [37, x]
  | .directive x (some fmt) => 37 :: x :: 123 :: (fmt ++ [125])

/-- The pattern that is the concatenation. -/
def pattern (ts : List PatternToken) : Bytes := ts.flatMap render

/-- Literals without a percent sign, registered letters, formats without braces, and neither a letter nor a brace behind
    a directive without a format. -/
def WellFormed : List PatternToken → Prop
  | [] => True
  | .text s :: ts => 37 ∉ s ∧ WellFormed ts
  | .percent :: ts => WellFormed ts
  | .directive x none :: ts =>
    [x] ∈ formatItems ∧ (∀ c ∈ (pattern ts).head?, ¬isalpha c ∧ c ≠ 123 ∧ c ≠ 125) ∧ WellFormed ts
  | .directive x (some fmt) :: ts => [x] ∈ formatItems ∧ 123 ∉ fmt ∧ 125 ∉ fmt ∧ WellFormed ts

instance decideWellFormed : DecidablePred WellFormed
  | [] => .isTrue trivial
  | .text _ :: ts => @instDecidableAnd _ _ _ (decideWellFormed ts)
  | .percent :: ts => decideWellFormed ts
  | .directive _ none :: ts =>
    @instDecidableAnd _ _ _ (@instDecidableAnd _ _ (Option.decidableForallMem _) (decideWellFormed ts))
  | .directive _ (some _) :: ts =>
    @instDecidableAnd _ _ _ (@instDecidableAnd _ _ _ (@instDecidableAnd _ _ _ (decideWellFormed ts)))

/-- What a piece is to put out. -/
def shown (f : FormatItem → Bytes) : PatternToken → Bytes
  | .text s => s
  | .percent => [37]
  | .directive x fmt => (FormatItem.make [x] (fmt.getD [])).elim [] f

end PatternToken

open PatternToken

variable {f : FormatItem → Bytes} {nstr m s x y : Bytes} {c : UInt8} {n : Nat} {t : PatternToken} {ts : List PatternToken}

/-! ### What the loop reads -/

/-- What the entries put out. -/
def output (f : FormatItem → Bytes) (vec : List FormatPart) : Bytes := vec.flatMap fun part => f (.ofPart part)

/-- `m_error`, from what the loop gives. -/
def broken (r : List FormatPart × Bool) : Bool := r.2 || r.1.any fun part => part.type ≠ 0 && !formatItems.contains part.str

theorem not_contains (str : Bytes) : (!formatItems.contains str) = decide (str ∉ formatItems) := by
  rw [List.contains_eq_mem, decide_not]

/-- Strings are put out as they are. -/
def Plain (f : FormatItem → Bytes) : Prop := ∀ s, f (.string s) = s

theorem plain_format (strftime : Nat → Bytes → Bytes) (level : Nat) (event : LogEvent) :
    Plain (·.format strftime level event) := fun _ => rfl

theorem output_literal (hf : Plain f) : output f (literal nstr) = nstr := by
  unfold literal
  split
  case isTrue hnil => exact hnil.symm
  case isFalse => exact (List.append_nil _).trans (hf nstr)

theorem output_append (vec vec' : List FormatPart) : output f (vec ++ vec') = output f vec ++ output f vec' :=
  List.flatMap_append

theorem broken_literal (nstr : Bytes) (vec : List FormatPart) (error : Bool) :
    broken (literal nstr ++ vec, error) = broken (vec, error) := by
  unfold literal
  split <;> rfl

/-- A literal that is pending comes first, and is no error. -/
theorem initLoop_pending (hf : Plain f) (m nstr : Bytes) (n : Nat) (s : Bytes) :
    broken (initLoop (m ++ nstr) n s) = broken (initLoop nstr n s) ∧
      (broken (initLoop nstr n s) = false →
        output f (initLoop (m ++ nstr) n s).1 = m ++ output f (initLoop nstr n s).1) := by
  induction s generalizing nstr n with
  | nil =>
    have hliteral := fun nstr => broken_literal nstr [] false
    simp only [List.append_nil] at hliteral
    simp only [initLoop]
    rw [hliteral, hliteral, output_literal hf, output_literal hf]
    exact ⟨rfl, fun _ => rfl⟩
  | cons c rest ih =>
    rw [initLoop, initLoop]
    by_cases hskip : n ≠ 0
    · rw [if_pos hskip, if_pos hskip]
      exact ih nstr (n - 1)
    · rw [if_neg hskip, if_neg hskip]
      by_cases hplain : c ≠ 37
      · rw [if_pos hplain, if_pos hplain, List.append_assoc]
        exact ih (nstr ++ [c]) 0
      · rw [if_neg hplain, if_neg hplain]
        by_cases hescape : rest.head? = some 37
        · rw [if_pos hescape, if_pos hescape, List.append_assoc]
          exact ih (nstr ++ [37]) 0
        · rw [if_neg hescape, if_neg hescape]
          cases hdir : directive rest with
          | none => exact ⟨rfl, fun h => by cases h⟩
          | some r =>
            dsimp only
            rw [broken_literal, broken_literal, output_append, output_append, output_literal hf, output_literal hf,
              List.append_assoc]
            exact ⟨rfl, fun _ => rfl⟩

/-- What a formatter of the text puts out, when the text is not in error. -/
def read (f : FormatItem → Bytes) (s : Bytes) : Option Bytes :=
  if broken (initLoop [] 0 s) then none else some (output f (initLoop [] 0 s).1)

theorem read_pending (hf : Plain f) (h : initLoop [] 0 s = initLoop m 0 x) : read f s = (read f x).map (m ++ ·) := by
  have hpending := initLoop_pending hf m [] 0 x
  rw [List.append_nil] at hpending
  unfold read
  rw [h, hpending.1]
  split
  · rfl
  · rename_i hclean
    rw [hpending.2 (Bool.not_eq_true _ ▸ hclean)]
    rfl

theorem initLoop_text (nstr : Bytes) (hs : 37 ∉ s) : initLoop nstr 0 (s ++ x) = initLoop (nstr ++ s) 0 x := by
  induction s generalizing nstr with
  | nil => rw [List.nil_append, List.append_nil]
  | cons c s ih =>
    obtain ⟨hc, hs⟩ := not_or.mp (mt List.mem_cons.mpr hs)
    rw [List.cons_append, initLoop, if_neg (not_not_intro rfl), if_pos (Ne.symm hc), ih _ hs, List.append_assoc,
      List.singleton_append]

theorem read_text (hf : Plain f) (hs : 37 ∉ s) : read f (s ++ x) = (read f x).map (s ++ ·) :=
  read_pending hf (initLoop_text [] hs)

/-- Of two percent signs the first is put out, and the second is looked at again. -/
theorem read_escape (hf : Plain f) : read f (37 :: 37 :: s) = (read f (37 :: s)).map (37 :: ·) := by
  refine read_pending hf (m := [37]) ?_
  rw [initLoop, if_neg (not_not_intro rfl), if_neg (not_not_intro rfl), if_pos List.head?_cons]
  rfl

theorem read_unclosed (hs : s.head? ≠ some 37) (hdir : directive s = none) : read f (37 :: s) = none := by
  unfold read
  rw [initLoop, if_neg (not_not_intro rfl), if_neg (not_not_intro rfl), if_neg hs, hdir]
  exact if_pos rfl

theorem read_directive (hs : s.head? ≠ some 37) (hdir : directive s = some (x, y, n)) : read f (37 :: s) =
    if x ∈ formatItems then (read f (s.drop n)).map (f (.ofPart ⟨x, y, 1⟩) ++ ·) else none := by
  have hloop : initLoop [] 0 (37 :: s) =
      (⟨x, y, 1⟩ :: (initLoop [] 0 (s.drop n)).1, (initLoop [] 0 (s.drop n)).2) := by
    rw [initLoop, if_neg (not_not_intro rfl), if_neg (not_not_intro rfl), if_neg hs, hdir]
    dsimp only
    rw [initLoop_skip]
    rfl
  have hbroken : broken (initLoop [] 0 (37 :: s)) = (x ∉ formatItems || broken (initLoop [] 0 (s.drop n))) := by
    rw [hloop, ← not_contains]
    unfold broken
    rw [List.any_cons, Bool.or_left_comm]
    rfl
  unfold read
  rw [hbroken]
  by_cases hmem : x ∈ formatItems
  · rw [if_pos hmem, decide_eq_false (not_not_intro hmem), Bool.false_or, hloop]
    split <;> rfl
  · rw [if_neg hmem, decide_eq_true hmem, Bool.true_or]
    exact if_pos rfl

/-! ### The directives -/

theorem formatItems_letter : ∀ str ∈ formatItems, str.length = 1 ∧ str.all isalpha = true := by decide

theorem letter_of_mem (h : [c] ∈ formatItems) : isalpha c = true ∧ c ≠ 37 := by
  have halpha : isalpha c = true := by
    have hall := (formatItems_letter _ h).2
    rwa [List.all_cons, List.all_nil, Bool.and_true] at hall
  refine ⟨halpha, ?_⟩
  rintro rfl
  cases halpha

theorem make_isSome : ∀ str ∈ formatItems, (FormatItem.make str y).isSome = true := by
  intro str hstr
  simp only [formatItems, List.map_cons, List.map_nil, List.mem_cons, List.not_mem_nil, or_false] at hstr
  rcases hstr with rfl | rfl | rfl | rfl | rfl | rfl | rfl | rfl | rfl | rfl | rfl | rfl <;> rfl

theorem ofPart_of_mem (f : FormatItem → Bytes) (y : Bytes) (h : [c] ∈ formatItems) :
    f (.ofPart ⟨[c], y, 1⟩) = (FormatItem.make [c] y).elim [] f := by
  obtain ⟨item, hitem⟩ := Option.isSome_iff_exists.mp (make_isSome (y := y) [c] h)
  unfold FormatItem.ofPart
  rw [if_neg (Nat.succ_ne_zero 0), hitem]
  rfl

/-- A well formed piece, with what comes behind it. -/
def Fits (t : PatternToken) (rest : Bytes) : Prop :=
  match t with
  | .text s => 37 ∉ s
  | .percent => True
  | .directive x none => [x] ∈ formatItems ∧ ∀ c ∈ rest.head?, ¬isalpha c ∧ c ≠ 123 ∧ c ≠ 125
  | .directive x (some fmt) => [x] ∈ formatItems ∧ 125 ∉ fmt

theorem wellFormed_cons (h : WellFormed (t :: ts)) : Fits t (pattern ts) ∧ WellFormed ts := by
  rcases t with s | _ | ⟨x, _ | fmt⟩
  · exact h
  · exact ⟨trivial, h⟩
  · exact ⟨⟨h.1, h.2.1⟩, h.2.2⟩
  · exact ⟨⟨h.1, h.2.2.1⟩, h.2.2.2⟩

theorem fits_mem {fmt : Option Bytes} (h : Fits (.directive c fmt) x) : [c] ∈ formatItems := by
  cases fmt with
  | none => exact h.1
  | some fmt => exact h.1

/-- A directive is read as one, and puts out what its item does. -/
theorem read_render_directive {fmt : Option Bytes} (h : Fits (.directive c fmt) x) :
    read f ((PatternToken.directive c fmt).render ++ x) = (read f x).map (shown f (.directive c fmt) ++ ·) := by
  have hmem := fits_mem h
  obtain ⟨halpha, hpercent⟩ := letter_of_mem hmem
  have hname : ∀ d ∈ [c], ofName d := by
    intro d hd
    rw [List.mem_singleton.mp hd, ofName, halpha, Bool.true_or]
  have hhead : ∀ l, (c :: l).head? ≠ some 37 := fun l heq => hpercent (Option.some.inj heq)
  cases fmt with
  | none =>
    have hstop : ∀ d ∈ x.head?, ¬ofName d ∧ d ≠ 123 := by
      intro d hd
      obtain ⟨halpha, hopen, hclose⟩ := h.2 d hd
      exact ⟨by simp [ofName, halpha, hclose], hopen⟩
    have hread := read_directive (f := f) (hhead x) (directive_stop hname hstop)
    rw [if_pos hmem, ofPart_of_mem f [] hmem] at hread
    exact hread
  | some fmt =>
    have hmemClose : 125 ∈ fmt ++ 125 :: x := List.mem_append_right _ List.mem_cons_self
    have htake : (fmt ++ 125 :: x).takeWhile (· ≠ 125) = fmt := by
      have hopen : ∀ d ∈ fmt, decide (d ≠ 125) = true := by
        intro d hd
        refine decide_eq_true ?_
        rintro rfl
        exact h.2 hd
      rw [List.takeWhile_append_of_pos hopen, List.takeWhile_cons_of_neg (by decide), List.append_nil]
    have hdir := directive_brace (u := fmt ++ 125 :: x) hname
    rw [if_pos hmemClose, htake] at hdir
    have hfirst : ([c] ++ 123 :: (fmt ++ 125 :: x)).head? ≠ some 37 := hhead _
    have hread := read_directive (f := f) hfirst hdir
    have hdrop : ([c] ++ 123 :: (fmt ++ 125 :: x)).drop ([c].length + fmt.length + 2) = x := by
      have hlen : [c].length + fmt.length + 2 = ([c] ++ 123 :: (fmt ++ [125])).length := by
        simp only [List.length_append, List.length_cons, List.length_nil]
        omega
      have hsplit : [c] ++ 123 :: (fmt ++ 125 :: x) = ([c] ++ 123 :: (fmt ++ [125])) ++ x := by simp
      rw [hlen, hsplit, List.drop_left]
    rw [if_pos hmem, ofPart_of_mem f fmt hmem, hdrop] at hread
    have hrender : (PatternToken.directive c (some fmt)).render ++ x = 37 :: ([c] ++ 123 :: (fmt ++ 125 :: x)) := by
      simp [render]
    rw [hrender]
    exact hread

/-- What is not an escape is put out as it should be. -/
theorem read_cons (hf : Plain f) (h : Fits t (pattern ts)) (ht : t ≠ .percent) :
    read f (pattern (t :: ts)) = (read f (pattern ts)).map (shown f t ++ ·) := by
  cases t with
  | text s => exact read_text hf h
  | percent => exact absurd rfl ht
  | directive x fmt => exact read_render_directive h

/-! ### Without escapes -/

theorem read_pattern (hf : Plain f) (h : WellFormed ts) (hts : .percent ∉ ts) :
    read f (pattern ts) = some (ts.flatMap (shown f)) := by
  induction ts with
  | nil => rfl
  | cons t ts ih =>
    obtain ⟨hfits, hrest⟩ := wellFormed_cons h
    obtain ⟨ht, hts⟩ := not_or.mp (mt List.mem_cons.mpr hts)
    rw [read_cons hf hfits (Ne.symm ht), ih hrest hts]
    rfl

/-! ### With an escape -/

/-- What the directives put out begins with neither a percent sign nor their own letter. -/
def Telling (f : FormatItem → Bytes) : Prop :=
  ∀ x, [x] ∈ formatItems → ∀ fmt, ∃ b rest, f (.ofPart ⟨[x], fmt, 1⟩) = b :: rest ∧ b ≠ 37 ∧ b ≠ x

/-- A registered name that the loop takes from a text is the first byte of it. -/
theorem head_of_directive (h : directive (c :: s) = some (x, y, n)) (hx : x ∈ formatItems) : x = [c] := by
  obtain ⟨hlen, -⟩ := formatItems_letter x hx
  have htake : x = (c :: s).takeWhile ofName := by
    rw [directive_eq] at h
    split at h
    · split at h
      · exact (Prod.mk.inj (Option.some.inj h)).1.symm
      · cases h
    · exact (Prod.mk.inj (Option.some.inj h)).1.symm
  by_cases hof : ofName c
  · rw [List.takeWhile_cons_of_pos hof] at htake
    rw [htake, List.length_cons] at hlen
    rw [htake, List.eq_nil_of_length_eq_zero (Nat.succ.inj hlen)]
  · rw [htake, List.takeWhile_cons_of_neg hof] at hlen
    cases hlen

/-- The text behind a percent sign is not put out as it is. -/
theorem read_percent_text (htelling : Telling f) (hc : c ≠ 37) : (read f (37 :: c :: s)).map List.head? ≠ some (some c) := by
  have hhead : (c :: s).head? ≠ some 37 := fun heq => hc (Option.some.inj heq)
  cases hdir : directive (c :: s) with
  | none =>
    rw [read_unclosed hhead hdir]
    nofun
  | some r =>
    obtain ⟨x, y, n⟩ := r
    rw [read_directive hhead hdir]
    split
    case isTrue hx =>
      obtain rfl := head_of_directive hdir hx
      obtain ⟨b, rest, hout, -, hb⟩ := htelling c hx y
      rw [hout]
      intro heq
      obtain ⟨_, hread, heq⟩ := Option.map_eq_some_iff.mp heq
      obtain ⟨_, -, rfl⟩ := Option.map_eq_some_iff.mp hread
      exact hb (Option.some.inj heq)
    case isFalse => nofun

theorem replicate_cons (n : Nat) (out : Bytes) : List.replicate n 37 ++ 37 :: out = 37 :: (List.replicate n 37 ++ out) := by
  induction n with
  | zero => rfl
  | succ n ih => rw [List.replicate_succ, List.cons_append, ih, List.cons_append]

theorem read_percent_percent (hf : Plain f) :
    read f (37 :: pattern (.percent :: ts)) = (read f (37 :: pattern ts)).map (37 :: 37 :: ·) := by
  have hfirst : read f (37 :: pattern (.percent :: ts)) = (read f (37 :: 37 :: pattern ts)).map (37 :: ·) :=
    read_escape hf
  rw [hfirst, read_escape hf, Option.map_map]
  rfl

theorem read_percent_directive (hf : Plain f) {fmt : Option Bytes} :
    read f (37 :: pattern (.directive c fmt :: ts)) = (read f (pattern (.directive c fmt :: ts))).map (37 :: ·) := by
  cases fmt with
  | none => exact read_escape hf
  | some fmt => exact read_escape hf

/-- A percent sign too many in front of what follows shows, however many percent signs have been put out for it. -/
theorem read_percent_ne (hf : Plain f) (htelling : Telling f) (h : WellFormed ts) (n : Nat) :
    (read f (37 :: pattern ts)).map (List.replicate n 37 ++ ·) ≠ some (ts.flatMap (shown f)) := by
  induction ts generalizing n with
  | nil =>
    have hnone : read f [37] = none := read_directive (s := []) nofun rfl
    exact fun heq => by
      rw [show pattern [] = [] from rfl, hnone] at heq
      cases heq
  | cons t ts ih =>
    obtain ⟨hfits, hrest⟩ := wellFormed_cons h
    cases t with
    | text s =>
      cases s with
      | nil => exact ih hrest n
      | cons c s =>
        have hc : c ≠ 37 := fun heq => hfits (heq ▸ List.mem_cons_self)
        intro heq
        obtain ⟨out, hout, heq⟩ := Option.map_eq_some_iff.mp heq
        cases n with
        | zero =>
          have hheads := read_percent_text (s := s ++ pattern ts) htelling hc
          refine hheads ?_
          have hread : read f (37 :: c :: (s ++ pattern ts)) = some out := hout
          rw [hread]
          exact congrArg (fun l => some (List.head? l)) heq
        | succ n => exact hc (List.cons.inj heq).1.symm
    | percent =>
      intro heq
      rw [read_percent_percent hf] at heq
      obtain ⟨_, hread, heq⟩ := Option.map_eq_some_iff.mp heq
      obtain ⟨out, hout, rfl⟩ := Option.map_eq_some_iff.mp hread
      refine ih hrest (n + 1) ?_
      rw [hout]
      rw [replicate_cons, replicate_cons] at heq
      exact congrArg some (List.cons.inj heq).2
    | directive x fmt =>
      have hmem := fits_mem hfits
      obtain ⟨b, rest, hitem, hb, -⟩ := htelling x hmem (fmt.getD [])
      rw [ofPart_of_mem f _ hmem] at hitem
      intro heq
      rw [read_percent_directive hf] at heq
      obtain ⟨_, hout, heq⟩ := Option.map_eq_some_iff.mp heq
      obtain ⟨out, -, rfl⟩ := Option.map_eq_some_iff.mp hout
      have hshown : (PatternToken.directive x fmt :: ts).flatMap (shown f) = b :: (rest ++ ts.flatMap (shown f)) := by
        rw [List.flatMap_cons, shown, hitem, List.cons_append]
      rw [replicate_cons, hshown] at heq
      exact hb (List.cons.inj heq).1.symm

theorem read_pattern_ne (hf : Plain f) (htelling : Telling f) (h : WellFormed ts) (hts : .percent ∈ ts) :
    read f (pattern ts) ≠ some (ts.flatMap (shown f)) := by
  induction ts with
  | nil => cases hts
  | cons t ts ih =>
    obtain ⟨hfits, hrest⟩ := wellFormed_cons h
    by_cases ht : t = .percent
    · subst ht
      intro heq
      have hread : read f (pattern (.percent :: ts)) = (read f (37 :: pattern ts)).map (37 :: ·) := read_escape hf
      rw [hread] at heq
      obtain ⟨out, hout, heq⟩ := Option.map_eq_some_iff.mp heq
      refine read_percent_ne hf htelling hrest 0 ?_
      rw [hout]
      exact congrArg some (List.cons.inj heq).2
    · intro heq
      rw [read_cons hf hfits ht] at heq
      obtain ⟨out, hout, heq⟩ := Option.map_eq_some_iff.mp heq
      have hmem := (List.mem_cons.mp hts).resolve_left (Ne.symm ht)
      exact ih hrest hmem (hout.trans (congrArg some (List.append_cancel_left heq)))

/-! ### The formatter -/

/-- The formatter has no error, and puts out every event piece by piece, whatever the C library makes of its time. -/
def Follows (ts : List PatternToken) : Prop :=
  (LogFormatter.new (pattern ts)).isError = false ∧ ∀ strftime level event,
    (LogFormatter.new (pattern ts)).format strftime level event = ts.flatMap (shown (·.format strftime level event))

theorem follows_iff_read : Follows ts ↔
    ∀ strftime level event, read (·.format strftime level event) (pattern ts) =
      some (ts.flatMap (shown (·.format strftime level event))) := by
  have hformat : ∀ strftime level event, (LogFormatter.new (pattern ts)).format strftime level event =
      output (·.format strftime level event) (initLoop [] 0 (pattern ts)).1 := fun _ _ _ => List.flatMap_map ..
  have herror : (LogFormatter.new (pattern ts)).isError = broken (initLoop [] 0 (pattern ts)) := by
    unfold broken
    simp only [not_contains]
    rfl
  unfold Follows read
  rw [herror]
  constructor
  · rintro ⟨hclean, hsame⟩ strftime level event
    rw [if_neg (Bool.not_eq_true _ ▸ hclean), ← hformat, hsame]
  · intro h
    have hclean : broken (initLoop [] 0 (pattern ts)) = false := by
      have hsome := h (fun _ _ => []) 0 ⟨[], 0, 0, 0, 0, 0, [], [], []⟩
      split at hsome
      case isTrue => cases hsome
      case isFalse hclean => exact Bool.not_eq_true _ ▸ hclean
    refine ⟨hclean, fun strftime level event => ?_⟩
    have hsome := h strftime level event
    rw [if_neg (Bool.not_eq_true _ ▸ hclean)] at hsome
    rw [hformat]
    exact Option.some.inj hsome

/-- An event of which everything is put out as a zero. -/
def zeroEvent : LogEvent := ⟨[48], 0, 0, 0, 0, 0, [48], [48], [48]⟩

theorem telling_zeroEvent : Telling (·.format (fun _ _ => [48]) 1 zeroEvent) := by
  intro x hx fmt
  simp only [formatItems, List.map_cons, List.map_nil, List.mem_cons, List.not_mem_nil, or_false] at hx
  rcases hx with heq | heq | heq | heq | heq | heq | heq | heq | heq | heq | heq | heq
  all_goals
    obtain rfl := (List.cons.inj heq).1
    exact ⟨_, _, rfl, by decide, by decide⟩

/-- `init` ends on every string; and of the patterns that are put together from literals, escapes and directives, the
    formatter follows exactly those without an escape. -/
theorem pattern_follows_iff (s : Bytes) (h : WellFormed ts) :
    scanPattern s (s.length + 1) 0 [] [] false = some (initLoop [] 0 s) ∧ (Follows ts ↔ .percent ∉ ts) := by
  refine ⟨init_terminates s, follows_iff_read.trans ?_⟩
  constructor
  · intro hread hpercent
    exact read_pattern_ne (plain_format _ _ _) telling_zeroEvent h hpercent (hread _ 1 zeroEvent)
  · exact fun hts strftime level event => read_pattern (plain_format _ _ _) h hts

/-- The date, a tabulator and the level in brackets. -/
theorem pattern_follows_iff_date :
    Follows [.directive 100 (some (ascii "%H:%M")), .directive 84 none, .text (ascii "["), .directive 112 none,
      .text (ascii "]")] :=
  (pattern_follows_iff [] (by decide)).2.mpr (by decide)

/-- `%%m` is a percent sign and a letter, and is read as a percent sign and the message. -/
theorem escape_misread : ¬∀ ts, WellFormed ts → Follows ts := by
  intro h
  have hshown := (h [.percent, .text (ascii "m")] (by decide)).2 (fun _ _ => []) 1 zeroEvent
  exact absurd hshown (by decide)

end Log
end MyHttp
