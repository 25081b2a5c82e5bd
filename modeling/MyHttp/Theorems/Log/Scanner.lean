import MyHttp.Log.FormatItems

/-! The scanner of `LogFormatter::init` comes to its end on every string, and reads the pattern byte by byte as
    `initLoop` does. -/

namespace MyHttp
namespace Log

open Lib.CString

variable {pattern front name done u nstr : Bytes} {vec : List FormatPart} {error : Bool} {c : UInt8} {i m n rounds : Nat}
  {s : Scan}

/-! ### One round of the inner loop -/

theorem scan_end (h : pattern[s.n]? = none) : scanDirective pattern i (rounds + 1) s = some s := by
  unfold scanDirective
  rw [h]

theorem scan_stop (h : pattern[s.n]? = some c) (hstatus : s.fmtStatus = 0) (hc : ¬isalpha c ∧ c ≠ 123 ∧ c ≠ 125) :
    scanDirective pattern i (rounds + 1) s = some { s with str := substr pattern (i + 1) (s.n - i - 1) } := by
  unfold scanDirective
  rw [h]
  exact if_pos ⟨hstatus, by simpa using hc⟩

theorem scan_open (h : pattern[s.n]? = some 123) (hstatus : s.fmtStatus = 0) :
    scanDirective pattern i (rounds + 1) s = scanDirective pattern i rounds
      { s with str := substr pattern (i + 1) (s.n - i - 1), fmtStatus := 1, fmtBegin := s.n, n := s.n + 1 } := by
  conv_lhs => unfold scanDirective
  rw [h]
  dsimp only
  rw [if_neg fun hand => hand.2.2.1 rfl, if_pos ⟨hstatus, rfl⟩]

theorem scan_close (h : pattern[s.n]? = some 125) (hstatus : s.fmtStatus = 1) :
    scanDirective pattern i (rounds + 1) s = some
      { s with fmt := substr pattern (s.fmtBegin + 1) (s.n - s.fmtBegin - 1), fmtStatus := 0, n := s.n + 1 } := by
  unfold scanDirective
  rw [h]
  dsimp only
  rw [if_neg fun hand => hand.2.2.2 rfl, if_neg fun hand => absurd hand.2 (by decide), if_pos ⟨hstatus, rfl⟩]

/-- A byte of a name or of a format. The name that goes on to the end is taken there. -/
theorem scan_pass (h : pattern[s.n]? = some c)
    (hc : s.fmtStatus = 0 ∧ (isalpha c ∨ c = 125) ∧ c ≠ 123 ∨ s.fmtStatus = 1 ∧ c ≠ 125) :
    scanDirective pattern i (rounds + 1) s = scanDirective pattern i rounds
      { s with
        n := s.n + 1
        str := if s.n + 1 = pattern.length ∧ s.str = [] then pattern.drop (i + 1) else s.str } := by
  conv_lhs => unfold scanDirective
  rw [h]
  dsimp only
  have hstop : ¬(s.fmtStatus = 0 ∧ (!isalpha c ∧ c ≠ 123 ∧ c ≠ 125)) := by
    rintro ⟨hzero, hnot, -, hbrace⟩
    rcases hc with ⟨-, halpha | heq, -⟩ | ⟨hone, -⟩
    · rw [halpha] at hnot
      cases hnot
    · exact hbrace heq
    · cases hzero.symm.trans hone
  have hopen : ¬(s.fmtStatus = 0 ∧ c = 123) := by
    rintro ⟨hzero, heq⟩
    rcases hc with ⟨-, -, hne⟩ | ⟨hone, -⟩
    · exact hne heq
    · cases hzero.symm.trans hone
  have hclose : ¬(s.fmtStatus = 1 ∧ c = 125) := by
    rintro ⟨hone, heq⟩
    rcases hc with ⟨hzero, -⟩ | ⟨-, hne⟩
    · cases hzero.symm.trans hone
    · exact hne heq
  rw [if_neg hstop, if_neg hopen, if_neg hclose]

/-! ### The inner loop -/

theorem getElem?_split (hn : n = front.length) : (front ++ u)[n]? = u.head? := by
  rw [hn, List.getElem?_append_right (Nat.le_refl _), Nat.sub_self, List.head?_eq_getElem?]

theorem substr_split (hn : n = front.length) (hm : m = done.length) : substr (front ++ (done ++ u)) n m = done := by
  rw [substr, hn, List.drop_left, hm, List.take_left]

/-- Behind an open brace at `m`: `done` has been passed, and `u` is left. -/
theorem scan_format (hm : m = front.length) (hn : n = m + 1 + done.length) (hsplit : pattern = front ++ 123 :: (done ++ u))
    (hrounds : u.length < rounds) (str : Bytes) :
    ∃ r, scanDirective pattern i rounds ⟨n, 1, m, str, []⟩ = some r ∧
      (125 ∈ u → r = ⟨n + (u.takeWhile (· ≠ 125)).length + 1, 0, m, str, done ++ u.takeWhile (· ≠ 125)⟩) ∧
      (125 ∉ u → r.fmtStatus = 1 ∧ r.fmt = []) := by
  induction u generalizing done n rounds str with
  | nil =>
    obtain ⟨rounds, rfl⟩ := Nat.exists_eq_succ_of_ne_zero (Nat.ne_zero_of_lt hrounds)
    have hend : pattern[n]? = none := by
      rw [hsplit, List.append_nil]
      exact List.getElem?_eq_none (by rw [List.length_append, List.length_cons]; omega)
    exact ⟨_, scan_end hend, fun h => absurd h List.not_mem_nil, fun _ => ⟨rfl, rfl⟩⟩
  | cons c u ih =>
    obtain ⟨rounds, rfl⟩ := Nat.exists_eq_succ_of_ne_zero (Nat.ne_zero_of_lt hrounds)
    have hlen : n = (front ++ 123 :: done).length := by
      rw [List.length_append, List.length_cons]
      omega
    have hrest : pattern = (front ++ 123 :: done) ++ c :: u := by rw [hsplit, List.append_assoc, List.cons_append]
    have hc : pattern[n]? = some c := by
      rw [hrest, getElem?_split hlen]
      rfl
    by_cases hbrace : c = 125
    · subst hbrace
      have hfmt : substr pattern (m + 1) (n - m - 1) = done := by
        have hparts : pattern = (front ++ [123]) ++ (done ++ 125 :: u) := by rw [hsplit, List.append_assoc, List.singleton_append]
        rw [hparts]
        exact substr_split (by rw [List.length_append, List.length_singleton, hm]) (by omega)
      refine ⟨_, scan_close hc rfl, fun _ => ?_, fun h => absurd List.mem_cons_self h⟩
      dsimp only
      rw [hfmt, List.takeWhile_cons_of_neg (by decide), List.append_nil, List.length_nil, Nat.add_zero]
    · have hmore : n + 1 = m + 1 + (done ++ [c]).length := by
        rw [List.length_append, List.length_singleton]
        omega
      obtain ⟨r, hr, hclosed, hopen⟩ := ih hmore (by rw [hsplit, List.append_assoc, List.singleton_append])
        (Nat.lt_of_succ_lt_succ hrounds) (if n + 1 = pattern.length ∧ str = [] then pattern.drop (i + 1) else str)
      refine ⟨r, (scan_pass hc (.inr ⟨rfl, hbrace⟩)).trans hr, fun hmem => ?_, fun hmem => ?_⟩
      · have hleft : 125 ∈ u := (List.mem_cons.mp hmem).resolve_left (Ne.symm hbrace)
        -- the brace comes before the end, so the name stays what it is
        have hnot : ¬(n + 1 = pattern.length ∧ str = []) := by
          rintro ⟨hlast, -⟩
          have hpos := List.length_pos_of_mem hleft
          rw [hrest, List.length_append, ← hlen, List.length_cons] at hlast
          omega
        have htake : (c :: u).takeWhile (· ≠ 125) = c :: u.takeWhile (· ≠ 125) :=
          List.takeWhile_cons_of_pos (by simpa using hbrace)
        rw [hclosed hleft, if_neg hnot, htake, List.append_assoc, List.singleton_append, List.length_cons, Nat.add_assoc n,
          Nat.add_comm 1]
      · exact hopen fun h => hmem (List.mem_cons_of_mem c h)

/-- What the inner loop is to find behind the percent sign at `i`. -/
def Found (pattern : Bytes) (i : Nat) (r : Scan) : Prop :=
  match directive (pattern.drop (i + 1)) with
  | some (str, fmt, len) => r.fmtStatus = 0 ∧ r.n = i + 1 + len ∧ r.str = str ∧ r.fmt = fmt
  | none => r.fmtStatus = 1 ∧ r.fmt = []

/-- A byte over which a name goes on. -/
def ofName (c : UInt8) : Bool := isalpha c || c = 125

theorem directive_eq (s : Bytes) : directive s =
    match s.dropWhile ofName with
    | 123 :: rest =>
      if (rest.takeWhile (· ≠ 125)).length < rest.length then
        some (s.takeWhile ofName, rest.takeWhile (· ≠ 125),
          (s.takeWhile ofName).length + (rest.takeWhile (· ≠ 125)).length + 2)
      else none
    | _ => some (s.takeWhile ofName, [], (s.takeWhile ofName).length) := rfl

theorem takeWhile_length_lt {l : Bytes} : (l.takeWhile (· ≠ 125)).length < l.length ↔ 125 ∈ l := by
  induction l with
  | nil => simp
  | cons c l ih =>
    by_cases hc : c = 125
    · simp [hc]
    · have htake : (c :: l).takeWhile (· ≠ 125) = c :: l.takeWhile (· ≠ 125) :=
        List.takeWhile_cons_of_pos (by simpa using hc)
      rw [htake, List.length_cons, List.length_cons, Nat.succ_lt_succ_iff, ih, List.mem_cons, or_iff_right (Ne.symm hc)]

theorem drop_split (hi : i + 1 = front.length) (hsplit : pattern = front ++ u) : pattern.drop (i + 1) = u := by
  rw [hsplit, hi, List.drop_left]

/-- A name that ends before another byte, or with the pattern. -/
theorem directive_stop (hname : ∀ c ∈ name, ofName c) (hstop : ∀ c ∈ u.head?, ¬ofName c ∧ c ≠ 123) :
    directive (name ++ u) = some (name, [], name.length) := by
  have hdrop : (name ++ u).dropWhile ofName = u := by
    rw [List.dropWhile_append_of_pos hname]
    cases u with
    | nil => rfl
    | cons c u => exact List.dropWhile_cons_of_neg (hstop c rfl).1
  have htake : (name ++ u).takeWhile ofName = name := by
    rw [List.takeWhile_append_of_pos hname]
    cases u with
    | nil => exact List.append_nil name
    | cons c u => rw [List.takeWhile_cons_of_neg (hstop c rfl).1, List.append_nil]
  rw [directive_eq, hdrop, htake]
  cases u with
  | nil => rfl
  | cons c u =>
    split
    case h_1 heq => exact absurd (List.cons.inj heq).1 (hstop c rfl).2
    case h_2 => rfl

/-- A name that ends before a brace. -/
theorem directive_brace (hname : ∀ c ∈ name, ofName c) : directive (name ++ 123 :: u) =
    if 125 ∈ u then some (name, u.takeWhile (· ≠ 125), name.length + (u.takeWhile (· ≠ 125)).length + 2) else none := by
  have hdrop : (name ++ 123 :: u).dropWhile ofName = 123 :: u := by
    rw [List.dropWhile_append_of_pos hname]
    exact List.dropWhile_cons_of_neg (by decide)
  have htake : (name ++ 123 :: u).takeWhile ofName = name := by
    rw [List.takeWhile_append_of_pos hname, List.takeWhile_cons_of_neg (by decide), List.append_nil]
  rw [directive_eq, hdrop, htake]
  exact if_congr takeWhile_length_lt rfl rfl

/-- Behind a name that ends in an open brace. -/
theorem scan_name_open (hi : i + 1 = front.length) (hn : n = i + 1 + name.length)
    (hsplit : pattern = front ++ (name ++ 123 :: u)) (hname : ∀ c ∈ name, ofName c) (hrounds : u.length < rounds) :
    ∃ r, scanDirective pattern i (rounds + 1) ⟨n, 0, 0, [], []⟩ = some r ∧ Found pattern i r := by
  have hlen : n = (front ++ name).length := by rw [List.length_append, hn, hi]
  have hbrace : pattern[n]? = some 123 := by
    rw [hsplit, ← List.append_assoc, getElem?_split hlen]
    rfl
  have htaken : substr pattern (i + 1) (n - i - 1) = name := by
    rw [hsplit]
    exact substr_split hi (by omega)
  have hopened : pattern = front ++ name ++ 123 :: ([] ++ u) := by rw [hsplit, List.append_assoc, List.nil_append]
  obtain ⟨r, hr, hclosed, hopen⟩ := scan_format (i := i) hlen rfl hopened hrounds name
  refine ⟨r, ?_, ?_⟩
  · rw [scan_open hbrace rfl]
    dsimp only
    rw [htaken]
    exact hr
  · unfold Found
    rw [drop_split hi hsplit, directive_brace hname]
    by_cases hmem : 125 ∈ u
    · rw [if_pos hmem, hclosed hmem]
      exact ⟨rfl, by dsimp only; rw [List.length_nil]; omega, rfl, rfl⟩
    · rw [if_neg hmem]
      exact hopen hmem

/-- Behind a name that ends in a byte that belongs to no directive. -/
theorem scan_name_stop (hi : i + 1 = front.length) (hn : n = i + 1 + name.length)
    (hsplit : pattern = front ++ (name ++ c :: u)) (hname : ∀ c ∈ name, ofName c) (hof : ¬ofName c) (hbrace : c ≠ 123) :
    ∃ r, scanDirective pattern i (rounds + 1) ⟨n, 0, 0, [], []⟩ = some r ∧ Found pattern i r := by
  have hc : pattern[n]? = some c := by
    rw [hsplit, ← List.append_assoc, getElem?_split (by rw [List.length_append, hn, hi])]
    rfl
  have htaken : substr pattern (i + 1) (n - i - 1) = name := by
    rw [hsplit]
    exact substr_split hi (by omega)
  have hbytes : ¬isalpha c ∧ c ≠ 123 ∧ c ≠ 125 :=
    ⟨fun halpha => hof (by simp [ofName, halpha]), hbrace, fun heq => hof (by simp [ofName, heq])⟩
  have hstop : ∀ d ∈ (c :: u).head?, ¬ofName d ∧ d ≠ 123 := by
    rintro d ⟨⟩
    exact ⟨hof, hbrace⟩
  refine ⟨_, scan_stop hc rfl hbytes, ?_⟩
  unfold Found
  rw [drop_split hi hsplit, directive_stop hname hstop]
  exact ⟨rfl, hn, htaken, rfl⟩

/-- Behind the percent sign: `name` has been passed, and `u` is left. The name is taken at the end only. -/
theorem scan_name {str : Bytes} (hi : i + 1 = front.length) (hn : n = i + 1 + name.length)
    (hsplit : pattern = front ++ (name ++ u)) (hname : ∀ c ∈ name, ofName c) (hrounds : u.length < rounds)
    (hstr : str = if u = [] then name else []) :
    ∃ r, scanDirective pattern i rounds ⟨n, 0, 0, str, []⟩ = some r ∧ Found pattern i r := by
  induction u generalizing name n rounds str with
  | nil =>
    obtain ⟨rounds, rfl⟩ := Nat.exists_eq_succ_of_ne_zero (Nat.ne_zero_of_lt hrounds)
    have hend : pattern[n]? = none := by
      rw [hsplit, List.append_nil]
      exact List.getElem?_eq_none (by rw [List.length_append]; omega)
    refine ⟨_, scan_end hend, ?_⟩
    unfold Found
    rw [drop_split hi hsplit, directive_stop hname (fun _ h => by cases h)]
    exact ⟨rfl, hn, hstr.trans (if_pos rfl), rfl⟩
  | cons c u ih =>
    obtain ⟨rounds, rfl⟩ := Nat.exists_eq_succ_of_ne_zero (Nat.ne_zero_of_lt hrounds)
    obtain rfl : str = [] := hstr.trans (if_neg (List.cons_ne_nil c u))
    by_cases hbrace : c = 123
    · subst hbrace
      exact scan_name_open hi hn hsplit hname (Nat.lt_of_succ_lt_succ hrounds)
    · by_cases hof : ofName c
      · have hc : pattern[n]? = some c := by
          rw [hsplit, ← List.append_assoc, getElem?_split (by rw [List.length_append, hn, hi])]
          rfl
        have hmore : n + 1 = i + 1 + (name ++ [c]).length := by
          rw [List.length_append, List.length_singleton]
          omega
        have hall : ∀ d ∈ name ++ [c], ofName d := by
          intro d hd
          rcases List.mem_append.mp hd with hd | hd
          · exact hname d hd
          · rwa [List.mem_singleton.mp hd]
        have hbytes : isalpha c ∨ c = 125 := by simpa [ofName] using hof
        have hrest : pattern = front ++ (name ++ [c] ++ u) := by rw [hsplit, List.append_assoc, List.singleton_append]
        have hlast : n + 1 = pattern.length ↔ u = [] := by
          rw [hrest, List.length_append, List.length_append, ← List.length_eq_zero_iff]
          omega
        obtain ⟨r, hr, hfound⟩ := ih hmore hrest hall (Nat.lt_of_succ_lt_succ hrounds) rfl
        refine ⟨r, (scan_pass hc (.inl ⟨rfl, hbytes, hbrace⟩)).trans ?_, hfound⟩
        rw [← hr]
        dsimp only
        congr 2
        rw [drop_split hi hrest]
        by_cases hnil : u = []
        · rw [if_pos ⟨hlast.mpr hnil, rfl⟩, if_pos hnil, hnil, List.append_nil]
        · rw [if_neg fun hand => hnil (hlast.mp hand.1), if_neg hnil]
      · exact scan_name_stop hi hn hsplit hname hof hbrace

/-- The inner loop finds the directive behind the percent sign at `i`. -/
theorem scanDirective_found (h : pattern[i]? = some c) :
    ∃ r, scanDirective pattern i (pattern.length + 1) ⟨i + 1, 0, 0, [], []⟩ = some r ∧ Found pattern i r := by
  have hi : i + 1 ≤ pattern.length := (List.getElem?_eq_some_iff.mp h).1
  have hsplit : pattern = pattern.take (i + 1) ++ ([] ++ pattern.drop (i + 1)) := by
    rw [List.nil_append, List.take_append_drop]
  have hfront : i + 1 = (pattern.take (i + 1)).length := by rw [List.length_take, Nat.min_eq_left hi]
  have hleft : (pattern.drop (i + 1)).length < pattern.length + 1 := by
    rw [List.length_drop]
    omega
  refine scan_name hfront rfl hsplit (fun _ hc => absurd hc List.not_mem_nil) hleft ?_
  split <;> rfl

/-! ### The outer loop -/

/-- The bytes of a directive are passed over. -/
theorem initLoop_skip (nstr : Bytes) (n : Nat) (u : Bytes) : initLoop nstr n u = initLoop nstr 0 (u.drop n) := by
  induction u generalizing n with
  | nil => rw [List.drop_nil, initLoop, initLoop]
  | cons c u ih =>
    cases n with
    | zero => rfl
    | succ n =>
      rw [initLoop, if_pos (Nat.succ_ne_zero n), Nat.add_sub_cancel, ih]
      rfl

/-- From index `i` on, both scanners add the same entries. -/
theorem scanPattern_eq (hrounds : pattern.length - i < rounds) : scanPattern pattern rounds i nstr vec error =
    some (vec ++ (initLoop nstr 0 (pattern.drop i)).1, error || (initLoop nstr 0 (pattern.drop i)).2) := by
  induction rounds generalizing i nstr vec error with
  | zero => exact absurd hrounds (Nat.not_lt_zero _)
  | succ rounds ih =>
    rw [scanPattern]
    cases hget : pattern[i]? with
    | none =>
      rw [List.drop_eq_nil_of_le (List.getElem?_eq_none_iff.mp hget), initLoop, Bool.or_false]
    | some c =>
      obtain ⟨hi, hc⟩ := List.getElem?_eq_some_iff.mp hget
      have hdrop : pattern.drop i = c :: pattern.drop (i + 1) := by rw [List.drop_eq_getElem_cons hi, hc]
      have hhead : (pattern.drop (i + 1)).head? = pattern[i + 1]? := by rw [List.head?_drop]
      rw [hdrop, initLoop, if_neg (not_not_intro rfl), hhead]
      dsimp only
      by_cases hplain : c ≠ 37
      · rw [if_pos hplain, if_pos hplain]
        exact ih (by omega)
      · rw [if_neg hplain, if_neg hplain]
        by_cases hescape : pattern[i + 1]? = some 37
        · rw [if_pos hescape, if_pos hescape]
          exact ih (by omega)
        · rw [if_neg hescape, if_neg hescape]
          obtain ⟨r, hr, hfound⟩ := scanDirective_found hget
          rw [hr, Option.bind_some]
          unfold Found at hfound
          cases hdir : directive (pattern.drop (i + 1)) with
          | none =>
            rw [hdir] at hfound
            obtain ⟨hstatus, hfmt⟩ := hfound
            rw [if_neg (by rw [hstatus]; decide), ih (by omega), hfmt, List.append_assoc, List.singleton_append, Bool.true_or,
              Bool.or_true]
          | some r' =>
            obtain ⟨str, fmt, len⟩ := r'
            rw [hdir] at hfound
            obtain ⟨hstatus, hn, hstr, hfmt⟩ := hfound
            rw [if_pos hstatus, ih (by omega), hn, hstr, hfmt]
            dsimp only
            rw [initLoop_skip [] len, List.drop_drop, List.append_assoc, List.append_assoc, List.singleton_append]

/-- `init` ends on every string, after no more rounds than it has bytes. -/
theorem init_terminates (pattern : Bytes) :
    scanPattern pattern (pattern.length + 1) 0 [] [] false = some (initLoop [] 0 pattern) := by
  rw [scanPattern_eq (Nat.lt_succ_of_le (Nat.sub_le ..)), List.nil_append, Bool.false_or]
  rfl

end Log
end MyHttp
