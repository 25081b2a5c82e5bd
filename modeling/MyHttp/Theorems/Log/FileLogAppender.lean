import MyHttp.Log.FileLogAppender
import MyHttp.Lib.Run

/-! Every line goes to the file that was opened for its second, in order and once. A stream that a write has failed on is lost for
    good; one that could not be opened is opened at the next second. -/

namespace MyHttp
namespace Log
namespace FileLogAppender

open Lib.CString Lib.Run

variable {s t : FileLogAppender} {k : Kernel} {now level f g : Nat} {text : Bytes}

/-- What has been written to a file. -/
def bytesOf (f : Nat) (disk : List (Nat × Bytes)) : Bytes := (disk.filter fun x => x.1 = f).flatMap (·.2)

/-- What a stream was given for a file. -/
def textsOf (f : Nat) (journal : List Entry) : Bytes := (journal.filter fun e => e.file = f).flatMap (·.text)

/-- What a stream holds for a file. -/
def held (stream : Ofstream) (f : Nat) : Bytes := if stream.file = some f then stream.buffer else []

/-- A file is open that nothing can be written to. -/
def Stuck (s : FileLogAppender) : Prop := s.stream.good = false ∧ s.stream.file ≠ none

theorem bytesOf_append (f g : Nat) (disk : List (Nat × Bytes)) (bytes : Bytes) :
    bytesOf f (disk ++ [(g, bytes)]) = bytesOf f disk ++ if g = f then bytes else [] := by
  unfold bytesOf
  by_cases h : g = f <;> simp [h]

theorem textsOf_append (f : Nat) (journal : List Entry) (e : Entry) :
    textsOf f (journal ++ [e]) = textsOf f journal ++ if e.file = f then e.text else [] := by
  unfold textsOf
  by_cases h : e.file = f <;> simp [h]

theorem held_none {stream : Ofstream} (h : stream.file = none) (f : Nat) : held stream f = [] := by
  rw [held, h, if_neg (Option.some_ne_none f).symm]

theorem held_some {stream : Ofstream} (h : stream.file = some g) (f : Nat) :
    held stream f = if g = f then stream.buffer else [] := by
  rw [held, h]
  exact if_congr Option.some_inj rfl rfl

/-! ### What every step keeps -/

structure Kept (s : FileLogAppender) : Prop where
  given : ∀ e ∈ s.journal, (e.time, e.file) ∈ s.opened
  sublist : ∀ f, (bytesOf f s.disk ++ held s.stream f).Sublist (textsOf f s.journal)
  whole : s.lost = false → ∀ f, bytesOf f s.disk ++ held s.stream f = textsOf f s.journal

structure Sound (s : FileLogAppender) : Prop extends Kept s where
  ready : s.stream.good = true → ∃ f, s.stream.file = some f ∧ (s.lastTime, f) ∈ s.opened

theorem Kept.close (h : s.Kept) (k : Kernel) : (s.close k).Kept := by
  cases hfile : s.stream.file with
  | none =>
    simp only [FileLogAppender.close, hfile]
    have hheld : ∀ f, held { s.stream with file := none, good := false } f = held s.stream f := fun f =>
      (held_none rfl f).trans (held_none hfile f).symm
    refine ⟨h.given, fun f => ?_, fun hlost f => ?_⟩
    · rw [hheld]
      exact h.sublist f
    · rw [hheld]
      exact h.whole hlost f
  | some g =>
    simp only [FileLogAppender.close, hfile]
    refine ⟨h.given, fun f => ?_, fun hlost f => ?_⟩
    · rw [bytesOf_append, held_none rfl, List.append_nil]
      refine .trans (.append_left ?_ _) (h.sublist f)
      rw [held_some hfile]
      split
      · exact List.take_sublist _ _
      · exact .refl _
    · obtain ⟨hbefore, hclosed⟩ := Bool.or_eq_false_iff.mp hlost
      rw [bytesOf_append, held_none rfl, List.append_nil, ← h.whole hbefore f, held_some hfile,
        List.take_of_length_le (Nat.not_lt.mp (of_decide_eq_false hclosed))]

theorem Kept.openFile (h : s.Kept) (now : Nat) (k : Kernel) : (s.openFile now k).Kept := by
  unfold FileLogAppender.openFile
  split
  case isTrue hopen =>
    have hnew : ∀ f, held ⟨some (s.named.getD s.next), true, []⟩ f = held s.stream f := fun f => by
      rw [held_none hopen.1, held_some rfl]
      exact ite_self []
    refine ⟨fun e he => List.mem_append_left _ (h.given e he), fun f => ?_, fun hlost f => ?_⟩
    · simp only [hnew]
      exact h.sublist f
    · simp only [hnew]
      exact h.whole hlost f
  case isFalse => exact ⟨h.given, h.sublist, h.whole⟩

theorem Kept.reopen (h : s.Kept) (now : Nat) (k : Kernel) : (s.reopen now k).Kept := by
  unfold FileLogAppender.reopen
  split
  · exact (h.close k).openFile now k
  · exact h.openFile now k

/-- A stream that is good behind `open` has a file that was opened just now. -/
theorem ready_openFile (h : (s.openFile now k).stream.good = true) :
    ∃ f, (s.openFile now k).stream.file = some f ∧ (now, f) ∈ (s.openFile now k).opened := by
  unfold FileLogAppender.openFile at h ⊢
  split_ifs at h ⊢
  exact ⟨_, rfl, List.mem_append_right _ List.mem_cons_self⟩

theorem write_bad (h : s.stream.good = false) (text : Bytes) (k : Kernel) :
    s.write text k = { s with errors := s.errors ++ [text] } := by
  rw [FileLogAppender.write, h, if_neg Bool.noConfusion]

theorem write_good (h : s.stream.good = true) (hfile : s.stream.file = some g) (text : Bytes) (k : Kernel) :
    s.write text k =
      let s' := { s with
        disk := s.disk ++ [(g, (s.stream.buffer ++ text).take k.moved)]
        journal := s.journal ++ [Entry.mk s.lastTime g text] }
      if k.writes then { s' with stream := ⟨some g, true, (s.stream.buffer ++ text).drop k.moved⟩ }
      else { s' with stream := ⟨some g, false, []⟩, errors := s.errors ++ [text], lost := true } := by
  rw [FileLogAppender.write, h, if_pos rfl]
  simp only [hfile]

theorem Sound.write (h : s.Sound) (text : Bytes) (k : Kernel) : (s.write text k).Sound := by
  cases hgood : s.stream.good with
  | false =>
    rw [write_bad hgood]
    exact ⟨⟨h.given, h.sublist, h.whole⟩, fun hg => absurd (hgood.symm.trans hg) Bool.noConfusion⟩
  | true =>
    obtain ⟨g, hfile, hopened⟩ := h.ready hgood
    rw [write_good hgood hfile]
    have hgiven : ∀ e ∈ s.journal ++ [Entry.mk s.lastTime g text], (e.time, e.file) ∈ s.opened := fun e he =>
      (List.mem_append.mp he).elim (h.given e) fun he => List.mem_singleton.mp he ▸ hopened
    -- a part of the buffer and the text goes to the disk
    have hpart : ∀ f, (bytesOf f (s.disk ++ [(g, (s.stream.buffer ++ text).take k.moved)]) ++
        if g = f then (s.stream.buffer ++ text).drop k.moved else []) =
          bytesOf f s.disk ++ held s.stream f ++ if g = f then text else [] := by
      intro f
      rw [bytesOf_append, held_some hfile]
      split_ifs
      · simp only [List.append_assoc, List.take_append_drop]
      · simp only [List.append_nil]
    dsimp only
    split_ifs
    · refine ⟨⟨hgiven, fun f => ?_, fun hlost f => ?_⟩, fun _ => ⟨g, rfl, hopened⟩⟩
      · rw [held_some rfl, textsOf_append]
        exact hpart f ▸ (h.sublist f).append_right _
      · rw [held_some rfl, textsOf_append]
        exact (hpart f).trans (congrArg (· ++ _) (h.whole hlost f))
    · refine ⟨⟨hgiven, fun f => ?_, nofun⟩, nofun⟩
      rw [held_some rfl, ite_self, List.append_nil, textsOf_append]
      refine .trans ?_ ((h.sublist f).append_right _)
      rw [← hpart f]
      exact List.sublist_append_left _ _

theorem Sound.freshen (h : s.Sound) (now : Nat) (k : Kernel) : (s.freshen now k).Sound := by
  unfold FileLogAppender.freshen
  split
  case isFalse => exact h
  have hkept := h.toKept.reopen now k
  exact ⟨⟨hkept.given, hkept.sublist, hkept.whole⟩, ready_openFile⟩

theorem Sound.log (h : s.Sound) (now level : Nat) (text : Bytes) (k : Kernel) : (s.log now level text k).Sound := by
  unfold FileLogAppender.log
  split
  · exact (h.freshen now k).write text k
  · exact h

theorem Sound.step (h : s.Sound) (a : Act) : (s.step a).Sound := by
  cases a with
  | log now level text k => exact h.log now level text k
  | setLevel | link => exact ⟨⟨h.given, h.sublist, h.whole⟩, h.ready⟩

theorem sound_new (named : Option Nat) (k : Kernel) : (new named k).Sound := by
  have hunopened : (unopened named).Kept := ⟨nofun, fun _ => .refl _, fun _ _ => rfl⟩
  have htime : (new named k).lastTime = 0 := by
    unfold new FileLogAppender.reopen FileLogAppender.openFile
    split_ifs <;> rfl
  exact ⟨hunopened.reopen 0 k, fun hgood => htime ▸ ready_openFile hgood⟩

/-! ### Streams that fail -/

theorem file_close (s : FileLogAppender) (k : Kernel) : (s.close k).stream.file = none := by
  cases hfile : s.stream.file <;> simp only [FileLogAppender.close, hfile]

theorem texts_close (s : FileLogAppender) (k : Kernel) : (s.close k).journal = s.journal ∧ (s.close k).errors = s.errors := by
  unfold FileLogAppender.close
  split <;> exact ⟨rfl, rfl⟩

/-- A stream is closed where `reopen` opens it. -/
theorem file_before_open (h : ¬s.Stuck) (k : Kernel) : (if s.stream.good then s.close k else s).stream.file = none := by
  cases hgood : s.stream.good with
  | true => exact file_close s k
  | false =>
    by_contra hfile
    exact h ⟨hgood, hfile⟩

theorem not_stuck_reopen (h : ¬s.Stuck) (now : Nat) (k : Kernel) : ¬(s.reopen now k).Stuck := by
  have hnone := file_before_open h k
  unfold FileLogAppender.reopen FileLogAppender.openFile
  generalize (if s.stream.good then s.close k else s) = s' at hnone
  split
  · exact fun hstuck => Bool.noConfusion hstuck.1
  · exact fun hstuck => hstuck.2 hnone

theorem not_stuck_freshen (h : ¬s.Stuck) (now : Nat) (k : Kernel) : ¬(s.freshen now k).Stuck := by
  unfold FileLogAppender.freshen
  split
  · exact not_stuck_reopen h now k
  · exact h

theorem reopen_opens (h : ¬s.Stuck) (now : Nat) (hopens : k.opens = true) :
    (s.reopen now k).stream.good = true ∧ (s.reopen now k).journal = s.journal ∧ (s.reopen now k).errors = s.errors ∧
      ∃ f, (s.reopen now k).stream.file = some f ∧ (s.reopen now k).named = some f := by
  have htexts : (if s.stream.good then s.close k else s).journal = s.journal ∧
      (if s.stream.good then s.close k else s).errors = s.errors := by
    split
    · exact texts_close s k
    · exact ⟨rfl, rfl⟩
  unfold FileLogAppender.reopen FileLogAppender.openFile
  rw [if_pos ⟨file_before_open h k, hopens⟩]
  exact ⟨rfl, htexts.1, htexts.2, _, rfl, rfl⟩

theorem reopen_stuck (h : s.Stuck) (now : Nat) (k : Kernel) : s.reopen now k = s := by
  obtain ⟨hgood, hfile⟩ := h
  have hsame : { s.stream with good := false } = s.stream := by rw [← hgood]
  have hskip : (if s.stream.good then s.close k else s) = s := by rw [hgood, if_neg Bool.noConfusion]
  rw [FileLogAppender.reopen, hskip, FileLogAppender.openFile, if_neg fun hand => hfile hand.1, hsame]

/-- A stuck stream stays so, and only `error` comes of a line. -/
theorem stuck_step (h : s.Stuck) (a : Act) :
    (s.step a).Stuck ∧ (s.step a).journal = s.journal ∧ (s.step a).disk = s.disk ∧ (s.step a).opened = s.opened := by
  cases a with
  | setLevel | link => exact ⟨h, rfl, rfl, rfl⟩
  | log now level text k =>
    have hsame : (s.freshen now k).stream = s.stream ∧ (s.freshen now k).journal = s.journal ∧
        (s.freshen now k).disk = s.disk ∧ (s.freshen now k).opened = s.opened := by
      unfold FileLogAppender.freshen
      rw [reopen_stuck h]
      split <;> exact ⟨rfl, rfl, rfl, rfl⟩
    simp only [FileLogAppender.step, FileLogAppender.log]
    split
    · obtain ⟨hstream, hkept⟩ := hsame
      rw [write_bad (by rw [hstream]; exact h.1)]
      exact ⟨by rw [Stuck, hstream]; exact h, hkept⟩
    · exact ⟨h, rfl, rfl, rfl⟩

/-- Only a write gets a stream stuck. -/
theorem stuck_of_step (h : ¬s.Stuck) {a : Act} (hstuck : (s.step a).Stuck) :
    ∃ now level text k, a = .log now level text k ∧ s.level ≤ level ∧ k.writes = false := by
  cases a with
  | setLevel | link => exact absurd hstuck h
  | log now level text k =>
    simp only [FileLogAppender.step, FileLogAppender.log] at hstuck
    split at hstuck
    case isFalse => exact absurd hstuck h
    case isTrue hlevel =>
      refine ⟨now, level, text, k, rfl, hlevel, ?_⟩
      have hbefore := not_stuck_freshen h now k
      generalize s.freshen now k = s' at hbefore hstuck
      cases hgood : s'.stream.good with
      | false =>
        rw [write_bad hgood] at hstuck
        exact absurd hstuck hbefore
      | true =>
        cases hfile : s'.stream.file with
        | none =>
          rw [FileLogAppender.write, hgood, if_pos rfl] at hstuck
          simp only [hfile] at hstuck
          exact absurd rfl hstuck.2
        | some g =>
          rw [write_good hgood hfile] at hstuck
          cases hwrites : k.writes with
          | false => rfl
          | true =>
            rw [hwrites] at hstuck
            cases hstuck.1

/-- The first line of a second that can be opened and written is for the file that the name leads to. -/
theorem log_reopened (h : ¬s.Stuck) (hlevel : s.level ≤ level) (hnow : now ≠ s.lastTime) (hopens : k.opens = true)
    (hwrites : k.writes = true) (text : Bytes) :
    ∃ f, (s.log now level text k).named = some f ∧ (s.log now level text k).journal = s.journal ++ [⟨now, f, text⟩] ∧
      (s.log now level text k).errors = s.errors := by
  obtain ⟨hgood, hjournal, herrors, f, hfile, hnamed⟩ := reopen_opens h now hopens
  have hfresh : s.freshen now k = { s.reopen now k with lastTime := now } := by rw [FileLogAppender.freshen, if_pos hnow]
  refine ⟨f, ?_⟩
  rw [FileLogAppender.log, if_pos hlevel, hfresh]
  generalize s.reopen now k = s' at hgood hjournal herrors hfile hnamed
  rw [write_good (s := { s' with lastTime := now }) hgood hfile, hwrites]
  exact ⟨hnamed, congrArg (· ++ _) hjournal, herrors⟩

end FileLogAppender
end Log
end MyHttp
