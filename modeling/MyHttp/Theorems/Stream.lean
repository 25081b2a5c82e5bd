import MyHttp.Stream
import MyHttp.Theorems.ByteArray.Refine

/-! The loops of `Stream` against what they are for: to move exactly `length` bytes, or to report the first call
    that moved none. What a call returns is a signed `int`, and the loops keep it in a `size_t`. -/

namespace MyHttp
namespace Stream

open Lib.Chunks Lib.Machine

variable {σ : Type} {o : Overload σ} {s : Stream} {length limit k : Nat} {st : σ} {log : List Call}
  {Moved : List UInt8 → σ → Prop}

/-! ### What a loop is for -/

/-- The value a loop returns, as the calls that it made decide it. -/
structure Returned (length : Nat) (value : Int) (log : List Call) : Prop where
  full : value = length ↔ (∀ c ∈ log, 0 < c.result) ∧ (log.map (·.result)).sum = length
  first : ∀ before c after, log = before ++ c :: after → c.result ≤ 0 → after = [] ∧ value = c.result
  bounds : ∀ c ∈ log, c.offset + c.asked ≤ length
  calls : log.length ≤ length + 1

/-- The loop ends and returns what it should. When that is `length`, so many bytes were `Moved`. -/
def FixSize (loop : Nat → Loop σ) (length : Nat) (Moved : List UInt8 → σ → Prop) : Prop :=
  ∃ k value st log, loop k = .ended value st log ∧ Returned length value log ∧
    (value = length → (log.flatMap (·.data)).length = length ∧ Moved (log.flatMap (·.data)) st)

/-- The bytes moved before call number `k`, when each call asks for the rest and `limit` can be moved in all. -/
def moved (s : Stream) (limit : Nat) : Nat → Nat
  | 0 => 0
  | k + 1 => s.moved limit k + (s.result k (limit - s.moved limit k)).toNat

/-- What call number `k` returns to a caller that asks for the rest. -/
def answer (s : Stream) (limit k : Nat) : Int := s.result k (limit - s.moved limit k)

/-- The answers that the loops are made for. No answer is negative before the end, or the one that is takes the
    unsigned counter to exactly 0 and is equal to `length` as an `int`; and `length` fits an `int` if all of it is
    moved. -/
def Meets (s : Stream) (length limit : Nat) : Prop :=
  ∀ k, (∀ j < k, 0 < s.answer limit j) →
    (s.moved limit k = length → length < 2 ^ 31) ∧
    (s.moved limit k < length → s.answer limit k < 0 →
      (length : Int) = s.moved limit k + 2 ^ 64 + s.answer limit k ∧ 2 ^ 32 ∣ s.moved limit k)

/-! ### Partial sums -/

theorem moved_succ (s : Stream) (limit k : Nat) :
    s.moved limit (k + 1) = s.moved limit k + (s.answer limit k).toNat := rfl

theorem answer_le (s : Stream) (limit k : Nat) : s.answer limit k ≤ (limit - s.moved limit k : Nat) :=
  s.result_le _ _

theorem moved_le (s : Stream) (limit k : Nat) : s.moved limit k ≤ limit := by
  induction k with
  | zero => exact Nat.zero_le _
  | succ k ih =>
    have hle := answer_le s limit k
    rw [moved_succ]
    omega

theorem moved_lt (h : 0 < s.answer limit k) : s.moved limit k < limit := by
  have hle := answer_le s limit k
  omega

theorem le_moved (hpos : ∀ j < k, 0 < s.answer limit j) : k ≤ s.moved limit k := by
  induction k with
  | zero => exact Nat.zero_le _
  | succ k ih =>
    have hk := hpos k (Nat.lt_succ_self k)
    have ih := ih fun j hj => hpos j (Nat.lt_succ_of_lt hj)
    rw [moved_succ]
    omega

/-- Some call moves nothing: there is no more than `limit` to move. -/
theorem exists_first (s : Stream) (limit : Nat) :
    ∃ k, (∀ j < k, 0 < s.answer limit j) ∧ s.answer limit k ≤ 0 := by
  have hex : ∃ k, s.answer limit k ≤ 0 := by
    by_contra hno
    simp only [not_exists, Int.not_le] at hno
    have hmany : limit + 1 ≤ s.moved limit (limit + 1) := le_moved fun j _ => hno j
    have hfew := moved_le s limit (limit + 1)
    omega
  classical
  exact ⟨Nat.find hex, fun j hj => Int.not_le.mp (Nat.find_min hex hj), Nat.find_spec hex⟩

/-- Only the first call that moves nothing matters. -/
theorem meets_iff (hpos : ∀ j < k, 0 < s.answer limit j) (hstop : s.answer limit k ≤ 0) (hlim : limit ≤ length) :
    s.Meets length limit ↔ (s.moved limit k = length → length < 2 ^ 31) ∧
      (s.moved limit k < length → s.answer limit k < 0 →
        (length : Int) = s.moved limit k + 2 ^ 64 + s.answer limit k ∧ 2 ^ 32 ∣ s.moved limit k) := by
  constructor
  · intro h
    exact h k hpos
  · intro h i hi
    rcases Nat.lt_trichotomy i k with hlt | rfl | hgt
    · have hi0 := hpos i hlt
      have hmove := moved_lt hi0
      exact ⟨fun he => by omega, fun _ hneg => by omega⟩
    · exact h
    · have hk := hi k hgt
      omega

/-! ### `int` and `size_t` -/

theorem int32_eq_iff (n : Nat) : int32 n = n ↔ n < 2 ^ 31 := by
  rw [int32_iff, Int.sub_self]
  constructor
  · rintro ⟨-, hlt, -⟩
    omega
  · intro h
    exact ⟨by omega, by omega, dvd_zero _⟩

theorem int32_corner {n m : Nat} {r : Int} (h : (n : Int) = m + 2 ^ 64 + r) (hneg : r < 0) (hr : -2 ^ 31 ≤ r) :
    int32 n = r ↔ 2 ^ 32 ∣ m := by
  rw [int32_iff, h]
  constructor
  · rintro ⟨-, -, hdvd⟩
    omega
  · intro hdvd
    exact ⟨hr, by omega, by omega⟩

/-! ### The calls of a loop -/

/-- What the loops rely on: a call moves what it says, at the place where the last one stopped. -/
structure Overload.Lawful (o : Overload σ) (length limit : Nat) (Moved : List UInt8 → σ → Prop) : Prop where
  place : ∀ {bs : List UInt8} {st : σ}, Moved bs st → o.place bs.length st = bs.length
  room : ∀ {bs : List UInt8} {st : σ}, Moved bs st → bs.length ≤ limit →
    o.room (length - bs.length) st = limit - bs.length
  data_length : ∀ {bs : List UInt8} {st : σ} (k n : Nat), Moved bs st → bs.length + n ≤ limit →
    (o.data k bs.length n st).length = n
  move : ∀ {bs : List UInt8} {st : σ} (k n : Nat), Moved bs st → bs.length + n ≤ limit →
    Moved (bs ++ o.data k bs.length n st) (o.move k bs.length (o.data k bs.length n st) st)

/-- The calls before number `k`, when all of them moved something. -/
structure Sofar (s : Stream) (length limit k : Nat) (log : List Call) : Prop where
  length_eq : log.length = k
  positive : ∀ c ∈ log, 0 < c.result
  sum : (log.map (·.result)).sum = s.moved limit k
  bounds : ∀ c ∈ log, c.offset + c.asked ≤ length
  data : (log.flatMap (·.data)).length = s.moved limit k

theorem enter_pos {offset left : Nat} (h : 0 < left) :
    enter length offset left st log = .running offset left st log := if_pos h

theorem enter_zero {offset : Nat} : enter length offset 0 st log = .ended (int32 length) st log := rfl

/-- One call made with nothing but the rest asked for. -/
theorem call_eq (L : o.Lawful length limit Moved) (S : Sofar s length limit k log)
    (hm : Moved (log.flatMap (·.data)) st) :
    ∃ data st', data.length = (s.answer limit k).toNat ∧ Moved (log.flatMap (·.data) ++ data) st' ∧
      call o s length k (.running (s.moved limit k) (length - s.moved limit k) st log) =
        let c : Call := ⟨s.moved limit k, length - s.moved limit k, s.answer limit k, data⟩
        let len := uint64 (s.answer limit k)
        if len ≤ 0 then .ended (int32 len) st' (log ++ [c])
        else enter length (wrap64 (s.moved limit k + len)) (sub64 (length - s.moved limit k) len) st' (log ++ [c]) := by
  have hmoved := moved_le s limit k
  have hans := answer_le s limit k
  have hplace := L.place hm
  have hroom := L.room hm (S.data.trans_le hmoved)
  have hdata := L.data_length k (s.answer limit k).toNat hm (by rw [S.data]; omega)
  have hmove := L.move k (s.answer limit k).toNat hm (by rw [S.data]; omega)
  rw [S.data] at hplace hroom hdata hmove
  refine ⟨_, _, hdata, hmove, ?_⟩
  rw [call, hroom, hplace]
  rfl

/-- As long as every call moves something, the loop asks for the rest. -/
theorem run_sofar (L : o.Lawful length limit Moved) (h0 : Moved [] st) (hlim : limit ≤ length) (hlen : length < 2 ^ 64)
    (hpos : ∀ j < k, 0 < s.answer limit j) :
    ∃ st' log, run o s length st k = enter length (s.moved limit k) (length - s.moved limit k) st' log ∧
      Sofar s length limit k log ∧ Moved (log.flatMap (·.data)) st' := by
  induction k with
  | zero => exact ⟨st, [], rfl, ⟨rfl, by simp, rfl, by simp, rfl⟩, h0⟩
  | succ k ih =>
    obtain ⟨st', log, hrun, S, hm⟩ := ih fun j hj => hpos j (Nat.lt_succ_of_lt hj)
    have hk := hpos k (Nat.lt_succ_self k)
    have hlt := moved_lt hk
    have hans := answer_le s limit k
    obtain ⟨data, st'', hdata, hm', hcall⟩ := call_eq L S hm
    rw [enter_pos (by omega)] at hrun
    refine ⟨st'', log ++ [⟨s.moved limit k, length - s.moved limit k, s.answer limit k, data⟩], ?_, ?_, ?_⟩
    · rw [run, hrun, hcall]
      dsimp only
      have hsmall : s.answer limit k < 2 ^ 31 := s.result_lt _ _
      rw [uint64_of_nonneg hk.le (by omega), if_neg (by omega), moved_succ, wrap64_of_lt (by omega),
        sub64_of_le (by omega) (by omega), Nat.sub_sub]
    · constructor
      · rw [List.length_append, S.length_eq, List.length_singleton]
      · intro c hc
        rcases List.mem_append.mp hc with hc | hc
        · exact S.positive c hc
        · rw [List.mem_singleton.mp hc]
          exact hk
      · rw [List.map_append, List.sum_append, S.sum, moved_succ]
        simp only [List.map_cons, List.map_nil, List.sum_singleton]
        omega
      · intro c hc
        rcases List.mem_append.mp hc with hc | hc
        · exact S.bounds c hc
        · rw [List.mem_singleton.mp hc]
          dsimp only
          omega
      · rw [List.flatMap_append, List.length_append, S.data, moved_succ]
        simp only [List.flatMap_cons, List.flatMap_nil, List.append_nil, hdata]
    · rw [List.flatMap_append]
      simpa only [List.flatMap_cons, List.flatMap_nil, List.append_nil] using hm'

/-- The first call that moves nothing, made before all is moved. -/
theorem run_first (L : o.Lawful length limit Moved) (h0 : Moved [] st) (hlim : limit ≤ length) (hlen : length < 2 ^ 64)
    (hpos : ∀ j < k, 0 < s.answer limit j) (hstop : s.answer limit k ≤ 0) (hlt : s.moved limit k < length) :
    ∃ st' log c, Sofar s length limit k log ∧ c.result = s.answer limit k ∧ c.offset + c.asked ≤ length ∧
      Moved ((log ++ [c]).flatMap (·.data)) st' ∧
      run o s length st (k + 1) =
        if s.answer limit k = 0 then .ended 0 st' (log ++ [c])
        else enter length (wrap64 (s.moved limit k + uint64 (s.answer limit k)))
          (wrap64 (length - s.moved limit k + (-s.answer limit k).toNat)) st' (log ++ [c]) := by
  obtain ⟨st', log, hrun, S, hm⟩ := run_sofar L h0 hlim hlen hpos
  obtain ⟨data, st'', hdata, hm', hcall⟩ := call_eq L S hm
  rw [enter_pos (by omega)] at hrun
  refine ⟨st'', log, ⟨s.moved limit k, length - s.moved limit k, s.answer limit k, data⟩, S, rfl, ?_, ?_, ?_⟩
  · change s.moved limit k + (length - s.moved limit k) ≤ length
    omega
  · rw [List.flatMap_append]
    simpa only [List.flatMap_cons, List.flatMap_nil, List.append_nil] using hm'
  · rw [run, hrun, hcall]
    rcases Int.lt_or_eq_of_le hstop with hneg | hzero
    · have hge : -2 ^ 31 ≤ s.answer limit k := s.result_ge _ _
      have hlarge : ¬uint64 (s.answer limit k) ≤ 0 := by
        rw [uint64_of_neg hneg (by omega)]
        omega
      rw [if_neg hneg.ne, ← sub64_uint64 _ hneg (by omega)]
      exact if_neg hlarge
    · have hsize : uint64 (s.answer limit k) = 0 := by rw [hzero, uint64_of_nonneg le_rfl (by omega), Int.toNat_zero]
      have hint : int32 (0 : Nat) = 0 := (int32_eq_iff 0).mpr (by omega)
      rw [if_pos hzero]
      dsimp only
      rw [hsize, if_pos le_rfl, hint]

/-! ### Where a loop ends -/

/-- The calls made so far. -/
def Loop.calls : Loop σ → List Call
  | .running _ _ _ log => log
  | .ended _ _ log => log

@[simp] theorem log_enter (offset left : Nat) : (enter length offset left st log).calls = log := by
  rw [enter]
  split <;> rfl

theorem log_call_running (o : Overload σ) (s : Stream) (length k offset left : Nat) (st : σ) (log : List Call) :
    ∃ c, (call o s length k (.running offset left st log)).calls = log ++ [c] := by
  rw [call]
  split
  · exact ⟨_, rfl⟩
  · exact ⟨_, log_enter _ _⟩

theorem log_call (o : Overload σ) (s : Stream) (length k : Nat) (l : Loop σ) : ∃ more, (call o s length k l).calls = l.calls ++ more := by
  cases l with
  | running offset left st log =>
    obtain ⟨c, hc⟩ := log_call_running o s length k offset left st log
    exact ⟨[c], hc⟩
  | ended value st log => exact ⟨[], (List.append_nil _).symm⟩

theorem run_ended {value : Int} {start : σ} (h : run o s length start k = .ended value st log) (i : Nat) :
    run o s length start (k + i) = .ended value st log := by
  induction i with
  | zero => exact h
  | succ i ih => rw [← Nat.add_assoc, run, ih, call]

/-- A loop that still runs after `k` calls makes another one. -/
theorem run_running {offset left : Nat} {start : σ} (h : run o s length start k = .running offset left st log)
    (i : Nat) : ∃ c more, (run o s length start (k + (i + 1))).calls = log ++ c :: more := by
  induction i with
  | zero =>
    obtain ⟨c, hc⟩ := log_call_running o s length k offset left st log
    exact ⟨c, [], by rw [Nat.zero_add, run, h, hc]⟩
  | succ i ih =>
    obtain ⟨c, more, hlog⟩ := ih
    obtain ⟨extra, hextra⟩ := log_call o s length (k + (i + 1)) (run o s length start (k + (i + 1)))
    exact ⟨c, more ++ extra, by rw [← Nat.add_assoc, run, hextra, hlog, List.append_assoc, List.cons_append]⟩

/-- A loop ends in one way only. -/
theorem fixSize_of_ended {start : σ} {value : Int} (h : run o s length start k = .ended value st log) :
    FixSize (run o s length start) length Moved ↔ Returned length value log ∧
      (value = length → (log.flatMap (·.data)).length = length ∧ Moved (log.flatMap (·.data)) st) := by
  constructor
  · rintro ⟨k', value', st', log', h', hret, hmoved⟩
    have hone := run_ended h k'
    rw [Nat.add_comm, run_ended h' k] at hone
    obtain ⟨rfl, rfl, rfl⟩ := Loop.ended.inj hone
    exact ⟨hret, hmoved⟩
  · rintro ⟨hret, hmoved⟩
    exact ⟨k, value, st, log, h, hret, hmoved⟩

/-- A loop that goes on after a call that moved nothing is not what it should be. -/
theorem not_fixSize_of_running {start : σ} {offset left : Nat} {before : List Call} {c : Call}
    (h : run o s length start k = .running offset left st (before ++ [c])) (hc : c.result ≤ 0) :
    ¬FixSize (run o s length start) length Moved := by
  rintro ⟨k', value, st', log, h', hret, -⟩
  rcases Nat.lt_or_ge k k' with hlt | hge
  · obtain ⟨i, rfl⟩ := Nat.exists_eq_add_of_lt hlt
    obtain ⟨d, more, hlog⟩ := run_running h i
    rw [← Nat.add_assoc, h'] at hlog
    have hfirst := hret.first before c (d :: more) (by rw [← List.append_cons] at hlog; exact hlog) hc
    exact List.cons_ne_nil _ _ hfirst.1
  · obtain ⟨i, rfl⟩ := Nat.exists_eq_add_of_le hge
    rw [run_ended h'] at h
    cases h

theorem returned_full {value : Int} (S : Sofar s length limit k log)
    (hpos : ∀ j < k, 0 < s.answer limit j) (h : s.moved limit k = length) :
    Returned length value log ↔ value = length := by
  have hsum : (∀ c ∈ log, 0 < c.result) ∧ (log.map (·.result)).sum = length := ⟨S.positive, by rw [S.sum, h]⟩
  constructor
  · intro hret
    exact hret.full.mpr hsum
  · intro hv
    refine ⟨⟨fun _ => hsum, fun _ => hv⟩, ?_, S.bounds, ?_⟩
    · rintro before c after rfl hc
      have := S.positive c (by simp)
      omega
    · have := le_moved hpos
      rw [S.length_eq]
      omega

theorem returned_first {value : Int} {c : Call} (S : Sofar s length limit k log)
    (hpos : ∀ j < k, 0 < s.answer limit j) (h : s.moved limit k < length) (hc : c.result ≤ 0)
    (hbound : c.offset + c.asked ≤ length) : Returned length value (log ++ [c]) ↔ value = c.result := by
  constructor
  · intro hret
    exact (hret.first log c [] rfl hc).2
  · intro hv
    constructor
    · constructor
      · intro he
        omega
      · rintro ⟨hall, -⟩
        have := hall c (by simp)
        omega
    · intro before d after hlog hd
      rcases List.eq_nil_or_concat' after with rfl | ⟨front, e, rfl⟩
      · obtain ⟨-, hdc⟩ := List.append_inj' hlog rfl
        exact ⟨rfl, by rw [hv, (List.cons.inj hdc).1]⟩
      · rw [← List.cons_append, ← List.append_assoc] at hlog
        obtain ⟨hfront, -⟩ := List.append_inj' hlog rfl
        have := S.positive d (by rw [hfront]; simp)
        omega
    · intro d hd
      rcases List.mem_append.mp hd with hd | hd
      · exact S.bounds d hd
      · rw [List.mem_singleton.mp hd]
        exact hbound
    · have := le_moved hpos
      rw [List.length_append, S.length_eq, List.length_singleton]
      omega

/-- A loop does what it is for exactly when the answers are such as it is made for. -/
theorem run_fixSize_iff (L : o.Lawful length limit Moved) (h0 : Moved [] st) (hlim : limit ≤ length)
    (hlen : length < 2 ^ 64) : FixSize (run o s length st) length Moved ↔ s.Meets length limit := by
  obtain ⟨k, hpos, hstop⟩ := exists_first s limit
  rw [meets_iff hpos hstop hlim]
  rcases Nat.lt_or_ge (s.moved limit k) length with hlt | hge
  · obtain ⟨st', log, c, S, hres, hbound, hm, hrun⟩ := run_first L h0 hlim hlen hpos hstop hlt
    have hret : ∀ value, Returned length value (log ++ [c]) ↔ value = c.result := fun value =>
      returned_first S hpos hlt (hres.trans_le hstop) hbound
    rw [hres] at hret
    by_cases hzero : s.answer limit k = 0
    · rw [if_pos hzero] at hrun
      rw [fixSize_of_ended hrun, hret, hzero]
      exact ⟨fun _ => ⟨by omega, by omega⟩, fun _ => ⟨rfl, by omega⟩⟩
    · have hneg : s.answer limit k < 0 := lt_of_le_of_ne hstop hzero
      have hge : -2 ^ 31 ≤ s.answer limit k := s.result_ge _ _
      rw [if_neg hzero] at hrun
      by_cases hwrap : (length : Int) = s.moved limit k + 2 ^ 64 + s.answer limit k
      · have hleft : wrap64 (length - s.moved limit k + (-s.answer limit k).toNat) = 0 := by
          rw [wrap64]
          omega
        rw [hleft, enter_zero] at hrun
        have hcorner := int32_corner hwrap hneg hge
        rw [fixSize_of_ended hrun, hret, hcorner]
        constructor
        · rintro ⟨hdvd, -⟩
          exact ⟨by omega, fun _ _ => ⟨hwrap, hdvd⟩⟩
        · rintro ⟨-, h⟩
          have hdvd := (h hlt hneg).2
          refine ⟨hdvd, fun he => ?_⟩
          rw [hcorner.mpr hdvd] at he
          omega
      · have hleft : 0 < wrap64 (length - s.moved limit k + (-s.answer limit k).toNat) := by
          rw [wrap64]
          omega
        rw [enter_pos hleft] at hrun
        constructor
        · intro hfix
          exact absurd hfix (not_fixSize_of_running hrun (hres.trans_le hstop))
        · rintro ⟨-, h⟩
          exact absurd (h hlt hneg).1 hwrap
  · have hall : s.moved limit k = length := Nat.le_antisymm ((moved_le s limit k).trans hlim) hge
    obtain ⟨st', log, hrun, S, hm⟩ := run_sofar L h0 hlim hlen hpos
    rw [hall, Nat.sub_self, enter_zero] at hrun
    rw [fixSize_of_ended hrun, returned_full S hpos hall, int32_eq_iff]
    constructor
    · rintro ⟨hlt, -⟩
      exact ⟨fun _ => hlt, by omega⟩
    · rintro ⟨hlt, -⟩
      exact ⟨hlt hall, fun _ => ⟨S.data.trans hall, hm⟩⟩

/-! ### The four loops -/

/-- `bs` lies in memory from 0 on, and the rest is as in `m`. -/
def Placed (m : Memory) (bs : List UInt8) (m' : Memory) : Prop := ∀ a < 2 ^ 64, m' a = bs[a]?.getD (m a)

/-- `bs` is what lies at the start of `buffer`. -/
def Sent (buffer : Memory) (bs : List UInt8) (_ : Unit) : Prop := bs = (List.range bs.length).map buffer

/-- `bs` was put at the cursor of `f`, which stands behind it. -/
def Filled (f : Flat) (bs : List UInt8) (f' : Flat) : Prop :=
  f'.position = f.position + bs.length ∧ f'.bytes.take f'.position = f.bytes.take f.position ++ bs

/-- `bs` is what can be read at the cursor of `f`, which stands behind it. -/
def Taken (f : Flat) (bs : List UInt8) (f' : Flat) : Prop :=
  f'.position = f.position + bs.length ∧ f'.bytes = f.bytes ∧ f'.size = f.size ∧ bs = f.peek bs.length

theorem length_data (s : Stream) (k n : Nat) : ((List.range n).map (s.byte k)).length = n := by
  rw [List.length_map, List.length_range]

theorem lawful_bufferRead (m : Memory) (hlen : length < 2 ^ 64) :
    s.bufferRead.Lawful length length (Placed m) where
  place _ := rfl
  room _ _ := rfl
  data_length k n _ _ := length_data s k n
  move {bs st} k n hm hle := by
    intro a ha
    have hdata := length_data s k n
    change (List.map (s.byte k) (List.range n))[(a + (2 ^ 64 - bs.length)) % 2 ^ 64]?.getD (st a) = _
    rw [hm a ha]
    rcases Nat.lt_or_ge a bs.length with hlt | hge
    · have hindex : (a + (2 ^ 64 - bs.length)) % 2 ^ 64 = a + (2 ^ 64 - bs.length) := Nat.mod_eq_of_lt (by omega)
      rw [hindex, List.getElem?_eq_none (by omega), List.getElem?_append_left hlt]
      rfl
    · have hindex : (a + (2 ^ 64 - bs.length)) % 2 ^ 64 = a - bs.length := by omega
      rw [hindex, List.getElem?_append_right hge, List.getElem?_eq_none hge]
      rfl

theorem lawful_bufferWrite (buffer : Memory) (hlen : length < 2 ^ 64) :
    (bufferWrite buffer).Lawful length length (Sent buffer) where
  place _ := rfl
  room _ _ := rfl
  data_length k n _ _ := by
    change ((List.range n).map _).length = n
    rw [List.length_map, List.length_range]
  move {bs st} k n hm hle := by
    have hnew : buffer.get bs.length n = ((List.range n).map fun i => bs.length + i).map buffer := by
      rw [List.map_map]
      refine List.map_congr_left fun i hi => congrArg buffer (Nat.mod_eq_of_lt ?_)
      have := List.mem_range.mp hi
      omega
    have hlength : (buffer.get bs.length n).length = n := by rw [Memory.get, List.length_map, List.length_range]
    change bs ++ buffer.get bs.length n = (List.range (bs ++ buffer.get bs.length n).length).map buffer
    rw [List.length_append, hlength, List.range_add, List.map_append, ← hnew, ← hm]

theorem lawful_byteArrayRead (grown : Nat → List UInt8) (f : Flat) :
    (s.byteArrayRead grown f.position).Lawful length length (Filled f) where
  place {bs st} hm := by
    change st.position - f.position = bs.length
    rw [hm.1, Nat.add_sub_cancel_left]
  room _ _ := rfl
  data_length k n _ _ := length_data s k n
  move {bs st} k n hm _ := by
    let data := (List.range n).map (s.byte k)
    have hfit : st.position ≤ st.bytes.length := st.position_le.trans st.size_le
    constructor
    · change st.position + data.length = f.position + (bs ++ data).length
      rw [hm.1, List.length_append, Nat.add_assoc]
    · change (overwrite (st.bytes ++ _) st.position data).take (st.position + data.length) = _
      rw [overwrite, List.take_append_of_le_length hfit,
        List.take_left' (by rw [List.length_append, List.length_take, Nat.min_eq_left hfit]), hm.2, List.append_assoc]
      rfl

theorem lawful_byteArrayWrite (f : Flat) :
    (byteArrayWrite f.position).Lawful length (min length (f.size - f.position)) (Taken f) where
  place {bs st} hm := by
    change st.position - f.position = bs.length
    rw [hm.1, Nat.add_sub_cancel_left]
  room {bs st} hm hle := by
    change min (length - bs.length) (st.size - st.position) = _
    rw [hm.1, hm.2.2.1]
    omega
  data_length {bs st} k n hm hle := by
    change ((st.bytes.drop st.position).take n).length = n
    have hsize := f.size_le
    rw [hm.1, hm.2.1, List.length_take, List.length_drop]
    omega
  move {bs st} k n hm hle := by
    obtain ⟨hpos, hbytes, hsize, hbs⟩ := hm
    have hlength : (st.peek n).length = n := by
      have := f.size_le
      rw [Flat.peek, hpos, hbytes, List.length_take, List.length_drop]
      omega
    have hpeek : bs ++ st.peek n = f.peek (bs.length + n) := by
      have hnext : st.peek n = ((f.bytes.drop f.position).drop bs.length).take n := by
        rw [Flat.peek, hpos, hbytes, List.drop_drop]
      have hboth : f.peek (bs.length + n) = f.peek bs.length ++ ((f.bytes.drop f.position).drop bs.length).take n :=
        List.take_add
      rw [hboth, ← hbs, hnext]
    refine ⟨?_, hbytes, hsize, ?_⟩
    · change st.position + min (st.peek n).length (st.size - st.position) = f.position + (bs ++ st.peek n).length
      rw [List.length_append, hlength, hpos, hsize]
      omega
    · change bs ++ st.peek n = f.peek (bs ++ st.peek n).length
      rw [List.length_append, hlength, hpeek]

/-- Each of the four loops returns what it should, after as many calls as it may make, exactly when the answers that
    it gets are such as it is made for. -/
theorem fixSize_iff (s : Stream) (buffer : Memory) (grown : Nat → List UInt8) (ba : Flat) {length : Nat}
    (h : length < 2 ^ 64) :
    (FixSize (s.readFixSize buffer length) length (Placed buffer) ↔ s.Meets length length) ∧
    (FixSize (s.readFixSizeByteArray grown ba length) length (Filled ba) ↔ s.Meets length length) ∧
    (FixSize (s.writeFixSize buffer length) length (Sent buffer) ↔ s.Meets length length) ∧
    (FixSize (s.writeFixSizeByteArray ba length) length (Taken ba) ↔
      s.Meets length (min length (ba.size - ba.position))) := by
  refine ⟨?_, ?_, ?_, ?_⟩
  · exact run_fixSize_iff (lawful_bufferRead buffer h) (fun a _ => rfl) le_rfl h
  · exact run_fixSize_iff (lawful_byteArrayRead grown ba) ⟨rfl, (List.append_nil _).symm⟩ le_rfl h
  · exact run_fixSize_iff (lawful_bufferWrite buffer h) rfl le_rfl h
  · exact run_fixSize_iff (lawful_byteArrayWrite ba) ⟨rfl, rfl, rfl, rfl⟩ (Nat.min_le_left _ _) h

/-- A peer that takes or gives two bytes at a time. -/
def pairs : Stream where
  result _ n := min n 2
  byte k _ := k.toUInt8
  result_le _ n := Int.min_le_left _ _
  result_ge _ n := by omega
  result_lt _ n := by omega

theorem fixSize_pairs :
    FixSize (pairs.readFixSize (fun _ => 0) 3) 3 (Placed fun _ => 0) ∧
    FixSize (pairs.readFixSizeByteArray (fun _ => []) (Flat.new [7]) 3) 3 (Filled (Flat.new [7])) ∧
    FixSize (pairs.writeFixSize (fun _ => 0) 3) 3 (Sent fun _ => 0) ∧
    FixSize (pairs.writeFixSizeByteArray (Flat.new [7]) 3) 3 (Taken (Flat.new [7])) := by
  have hmeets : ∀ limit, pairs.Meets 3 limit := by
    intro limit k _
    refine ⟨fun _ => by omega, fun _ hneg => ?_⟩
    have hpos : (0 : Int) ≤ min ((limit - pairs.moved limit k : Nat) : Int) 2 := by omega
    exact absurd hneg (Int.not_lt.mpr hpos)
  obtain ⟨h1, h2, h3, h4⟩ := fixSize_iff pairs (fun _ => 0) (fun _ => []) (Flat.new [7])
    (show 3 < 2 ^ 64 by omega)
  exact ⟨h1.mpr (hmeets _), h2.mpr (hmeets _), h3.mpr (hmeets _), h4.mpr (hmeets _)⟩

/-- A peer whose first call fails. -/
def failing : Stream where
  result k n := if k = 0 then -1 else min n 2
  byte k _ := k.toUInt8
  result_le k n := by split <;> omega
  result_ge k n := by split <;> omega
  result_lt k n := by split <;> omega

/-- The loop goes on after the failure: it asks for five bytes, in front of the buffer. -/
theorem fixSize_fails : ¬∀ (s : Stream) (buffer : Memory) (length : Nat), length < 2 ^ 64 →
    FixSize (s.readFixSize buffer length) length (Placed buffer) := by
  intro h
  have hfix := h failing (fun _ => 0) 4 (by omega)
  have hrun : failing.readFixSize (fun _ => 0) 4 1 =
      .running (2 ^ 64 - 1) 5 (Memory.put (fun _ => 0) 0 []) ([] ++ [⟨0, 4, -1, []⟩]) := rfl
  exact not_fixSize_of_running hrun (by decide) hfix

end Stream

/-! ### The `ByteArray` overloads of `SocketStream`

Where they return, they do to the `ByteArray` what the loops above take a call to do to the row of bytes. -/

namespace SocketStream

open Lib.Chunks MyHttp.ByteArray

variable {B length : Nat} {b b' : ByteArray} {f : Flat} {rt v : Int} {data : List UInt8}

theorem receive_eq {grown : List UInt8} (h : f.position + data.length ≤ (f.grow grown).bytes.length) :
    f.receive grown data = (f.grow grown).write data h := by
  have henough : f.position + data.length - (f.bytes.length + grown.length) = 0 := by
    rw [Flat.grow, List.length_append] at h
    omega
  have hgrow : f.grow (grown ++ List.replicate (f.position + data.length - (f.bytes.length + grown.length)) 0) =
      f.grow grown := by
    rw [henough, List.replicate_zero, List.append_nil]
  simp only [Flat.receive, hgrow]

theorem read_refines {fresh : Nat → Nat → UInt8} (h : Represents B b f) (hlen : 1 ≤ length) (hrt : rt ≤ length)
    (hdata : data.length = rt.toNat) (hr : read true fresh b length rt data = .ok (v, b')) :
    v = rt ∧ ∃ grown, Represents B b' (f.receive grown data) := by
  have hroom : length ≤ (b.addCapacity fresh length).getCapacity := by
    by_contra hno
    rw [read, h.inv.getWriteBuffers_fault hlen (Nat.not_le.mp hno)] at hr
    cases hr
  obtain ⟨grown, hg⟩ := h.grow fresh length
  obtain ⟨spans, hw, htiles⟩ := h.inv.getWriteBuffers hlen hroom
  have hend := hg.inv.getCapacity_room hroom
  rw [read, hw] at hr
  have hpos : (b.addCapacity fresh length).position = b.position := hg.position.trans h.position.symm
  have hbase : (b.addCapacity fresh length).baseSize = b.baseSize := hg.base.trans h.base.symm
  rw [← hpos, ← hbase] at htiles
  generalize b.addCapacity fresh length = c at hr hg hend htiles hpos
  obtain ⟨hflat, hu, hnodes⟩ := scatter_tiles hg.inv.uniform htiles (hg.inv.capacity_eq ▸ hend)
    (show data.length ≤ length by omega)
  have hfit : f.position + data.length ≤ (f.grow grown).bytes.length := by
    have hcap := hg.capacity
    have hposition := h.position
    omega
  let e : ByteArray := { c with nodes := scatter c.nodes spans data }
  have he : Inv e := hg.inv.setNodes hu hnodes
  have hbytes : e.nodes.flatten = overwrite (f.grow grown).bytes f.position data := by
    rw [← hg.bytes, ← h.position, ← hpos]
    exact hflat
  replace hr : (if rt > 0 then (e.setPosition (c.position + rt.toNat)).map (rt, ·) else .ok (rt, e)) =
      .ok (v, b') := by
    rw [← hr]
    split <;> rfl
  rcases lt_or_ge 0 rt with hmore | hnone
  · obtain ⟨d, hd, hinv, hdbase, hdnodes, hdpos, hdsize⟩ := he.setPosition (v := c.position + rt.toNat)
      (show c.position + rt.toNat ≤ c.capacity by omega)
    rw [if_pos hmore, hd] at hr
    obtain ⟨rfl, rfl⟩ := Prod.mk.inj (Except.ok.inj hr)
    refine ⟨rfl, grown, ?_⟩
    rw [receive_eq hfit]
    refine ⟨hinv, hdbase.trans hg.base, ?_, ?_, ?_⟩
    · rw [hdnodes, hbytes]
      rfl
    · rw [hdpos, hpos, h.position, ← hdata]
      rfl
    · rw [hdsize, hpos, h.position, ← hdata]
      exact congrArg (max · (f.position + data.length)) hg.size
  · obtain rfl : data = [] := List.length_eq_zero_iff.mp (by omega)
    rw [if_neg (not_lt.mpr hnone)] at hr
    obtain ⟨rfl, rfl⟩ := Prod.mk.inj (Except.ok.inj hr)
    refine ⟨rfl, grown, ?_⟩
    rw [receive_eq hfit]
    refine ⟨he, hg.base, hbytes, hpos.trans h.position, ?_⟩
    exact hg.size.trans (Nat.max_eq_left f.position_le).symm

/-- `write` hands over the readable bytes and moves the cursor behind those that were sent. -/
theorem write_eq (h : Inv b) (hrt : rt ≤ min length b.getReadSize) :
    ∃ b', write true b length rt = .ok (rt, (b.nodes.flatten.drop b.position).take rt.toNat, b') ∧ Inv b' ∧
      b'.baseSize = b.baseSize ∧ b'.nodes = b.nodes ∧ b'.position = b.position + rt.toNat ∧ b'.size = b.size := by
  obtain ⟨spans, hget, -, hgather⟩ := h.getReadBuffers length
  have hsent : (gather b.nodes spans).take rt.toNat = (b.nodes.flatten.drop b.position).take rt.toNat := by
    rw [hgather, List.take_take, Nat.min_eq_left (by omega)]
  have heq : write true b length rt = if rt > 0 then (b.setPosition (b.position + rt.toNat)).map
      (rt, (gather b.nodes spans).take rt.toNat, ·) else .ok (rt, (gather b.nodes spans).take rt.toNat, b) := by
    rw [write, if_neg (by decide), hget]
    rcases lt_or_ge 0 rt with hmore | hnone
    · rw [if_pos hmore]
      exact if_pos hmore
    · rw [if_neg (not_lt.mpr hnone)]
      exact if_neg (not_lt.mpr hnone)
  rw [heq, hsent]
  rcases lt_or_ge 0 rt with hmore | hnone
  · have hend : b.position + rt.toNat ≤ b.size := by
      rw [getReadSize] at hrt
      omega
    obtain ⟨b', hback, hinv, hbase, hnodes, hposition, hsize⟩ := h.setPosition (hend.trans h.size_le)
    rw [if_pos hmore, hback]
    exact ⟨b', rfl, hinv, hbase, hnodes, hposition, hsize.trans (Nat.max_eq_left hend)⟩
  · rw [if_neg (not_lt.mpr hnone), Int.toNat_of_nonpos hnone]
    exact ⟨b, rfl, h, rfl, rfl, rfl, rfl⟩

theorem write_refines {sent : List UInt8} (h : Represents B b f) (hrt : rt ≤ min length b.getReadSize)
    (hr : write true b length rt = .ok (v, sent, b')) :
    v = rt ∧ sent = f.peek rt.toNat ∧ Represents B b' (f.skip rt.toNat) := by
  obtain ⟨c, hwrite, hinv, hbase, hnodes, hposition, hsize⟩ := write_eq h.inv hrt
  obtain ⟨rfl, hrest⟩ := Prod.mk.inj (Except.ok.inj (hwrite.symm.trans hr))
  obtain ⟨rfl, rfl⟩ := Prod.mk.inj hrest
  have hskip : min rt.toNat (f.size - f.position) = rt.toNat := by
    rw [← h.readSize]
    omega
  refine ⟨rfl, ?_, hinv, hbase.trans h.base, hnodes ▸ h.bytes, ?_, hsize.trans h.size⟩
  · rw [h.bytes, h.position]
    rfl
  · change c.position = f.position + min rt.toNat (f.size - f.position)
    rw [hposition, hskip, h.position]

end SocketStream
end MyHttp
